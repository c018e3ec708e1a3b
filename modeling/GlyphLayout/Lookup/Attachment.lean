import GlyphLayout.Lookup.Context

/-!
# Attachment

Marks are attached to bases, to the components of ligatures and to other marks; the exits of
glyphs are joined to the entries of others.
-/

namespace GlyphLayout

open Feature (Anchor Attachment Rule)
open Source (Coverage Location)

namespace Definitions

variable (definitions : Definitions)

/-- The marks of a coverage as members of a mark class. -/
def membersOf (location : Location) (marks : Coverage × String) :
    Except ConversionError (List MarkMember) := do
  let glyphs ← definitions.expand location marks.1
  glyphs.mapM fun glyph =>
    if definitions.hasMarkAnchor ⟨glyph, marks.2⟩ then .ok ⟨glyph, marks.2⟩
    else .error (.undefinedMarkAnchor glyph marks.2 location)

/-- The marks that an attachment attaches. -/
def attachedMarks (location : Location) (marks : List (Coverage × String)) :
    Except ConversionError (List MarkMember) := do
  return (← marks.mapM (definitions.membersOf location)).flatten

/-- The anchors of a base glyph for a mark class, and the class in a feature file. -/
def anchorsForClass (location : Location) (glyph markClass : String) :
    Except ConversionError (SortedMap UInt16 Anchor × String) :=
  match definitions.anchor? glyph markClass with
  | none => .error (.undefinedAnchor glyph markClass location)
  | some anchors =>
      match definitions.markClassName? markClass with
      | none => .error (.undefinedMarkAnchor glyph markClass location)
      | some className => .ok (anchors, className)

/-- The attachments at a component that counts from zero. -/
def attachmentsAt (anchors : List (SortedMap UInt16 Anchor × String)) (index : Nat) :
    List Attachment :=
  anchors.map fun (points, className) => ⟨points.get? (UInt16.ofNat (index + 1)), className⟩

/-- The rule that attaches marks of the given classes to a glyph. -/
def attachmentRule (location : Location) (classes : List String) (glyph : String) :
    Except ConversionError Rule := do
  let anchors ← classes.mapM (definitions.anchorsForClass location glyph)
  let base := Feature.Glyphs.glyph (definitions.outputName glyph)
  if definitions.isMark glyph then
    return .markToMark base (attachmentsAt anchors 0)
  else
    match definitions.ligatureComponents? glyph with
    | some count =>
        return .markToLigature base ((List.range count.toNat).map (attachmentsAt anchors))
    | none => return .markToBase base (attachmentsAt anchors 0)

/-- The rules that attach marks to bases, one for each base. -/
def attachmentRules (location : Location) (bases : Coverage) (classes : List String) :
    Except ConversionError (List Rule) := do
  let glyphs ← definitions.expand location bases
  if classes.isEmpty then
    return []
  else
    glyphs.eraseDups.mapM (definitions.attachmentRule location classes.eraseDups)

/-- The anchor of a glyph that takes part in a join. -/
def joinAnchor (location : Location) (glyph name : String) : Except ConversionError Anchor :=
  match (definitions.anchor? glyph name).bind (·.get? 1) with
  | some anchor => .ok anchor
  | none => .error (.undefinedAnchor glyph name location)

/--
The rules that join glyphs.  A glyph that has an entry and stands among the exits as well gets
both anchors in one rule, which uses up one of its places among the exits.
-/
def joinRules (location : Location) : (entries exits : List String) →
    Except ConversionError (List Rule)
  | [], exits =>
      exits.mapM fun glyph => do
        let exit ← definitions.joinAnchor location glyph "exit"
        return .cursive (.glyph (definitions.outputName glyph)) none (some exit)
  | glyph :: entries, exits => do
      let entry ← definitions.joinAnchor location glyph "entry"
      let exit ←
        if exits.contains glyph then some <$> definitions.joinAnchor location glyph "exit"
        else pure none
      let rest ← joinRules location entries (exits.erase glyph)
      return .cursive (.glyph (definitions.outputName glyph)) (some entry) exit :: rest

/-- The rules of a cursive attachment. -/
def cursiveRules (location : Location) (exits entries : List Coverage) :
    Except ConversionError (List Rule) := do
  let entryGlyphs ← entries.mapM (definitions.expand location)
  let exitGlyphs ← exits.mapM (definitions.expand location)
  definitions.joinRules location entryGlyphs.flatten exitGlyphs.flatten

end Definitions
end GlyphLayout
