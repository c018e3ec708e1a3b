import GlyphLayout.Definitions.Coverage
import GlyphLayout.Outcome

/-!
# Collecting definitions

The statements of a project other than lookups are taken in one after the other.  A group can
refer only to glyphs and groups that are defined in front of it.
-/

namespace GlyphLayout
namespace Definitions

open Feature (Anchor Glyphs)
open Source (AnchorDefinition GlyphDefinition GroupDefinition Location ScriptDefinition Setting
  Statement)

/-- The name that a feature file uses for a glyph that is being defined. -/
def nameFor (definitions : Definitions) (glyph : GlyphDefinition) :
    Except ConversionError String :=
  match definitions.glyphOrder with
  | none => .ok glyph.name
  | some order =>
      match order.get? glyph.id with
      | some name => .ok name
      | none => .error (.glyphIdOutOfRange glyph.name glyph.id order.size glyph.location)

/-- Puts a glyph into the class of its kind. -/
def classify (definitions : Definitions) (glyph : GlyphDefinition) (output : Glyphs) :
    Definitions :=
  let classes := definitions.glyphClasses
  match glyph.kind with
  | none => definitions
  | some .base => { definitions with glyphClasses.base := classes.base ++ [output] }
  | some .ligature =>
      { definitions with
        glyphClasses.ligature := classes.ligature ++ [output]
        ligatures := definitions.ligatures.insert glyph.name (max 1 (glyph.components.getD 1)) }
  | some .mark =>
      { definitions with
        glyphClasses.mark := classes.mark ++ [output]
        marks := definitions.marks.insert glyph.name }
  | some .component =>
      { definitions with glyphClasses.component := classes.component ++ [output] }

/-- Takes in the definition of a glyph. -/
def addGlyph (definitions : Definitions) (glyph : GlyphDefinition) :
    Except ConversionError Definitions := do
  let outputName ← definitions.nameFor glyph
  let classified := definitions.classify glyph (.glyph outputName)
  let namesById :=
    if classified.namesById.contains glyph.id then classified.namesById
    else classified.namesById.insert glyph.id glyph.name
  return { classified with
    namesById
    glyphs := classified.glyphs.insert glyph.name ⟨glyph.id, outputName⟩ }

/-- Takes in the definition of a group. -/
def addGroup (definitions : Definitions) (group : GroupDefinition) : Outcome Definitions := do
  let members ← definitions.resolve group.location group.members
  let glyphs ← definitions.expand group.location group.members
  let (className, classNames) := definitions.classNames.identify group.name
  let key := Text.lowercase group.name
  Outcome.tellIf (definitions.groups.contains key) (.groupRedefined group.location group.name)
  return { definitions with
    classNames
    groups := definitions.groups.insert key ⟨className, members.flatMap Glyphs.parts, glyphs⟩ }

/-- Gives a feature its lookups in a language system that has none for it yet. -/
def addLanguageSystem (features : LanguageSystems) (feature script language : Tag)
    (lookups : FeatureLookups) : Except ConversionError LanguageSystems :=
  let scripts := features.getD feature ∅
  let languages := scripts.getD script ∅
  if languages.contains language then
    .error (.duplicateLanguageSystem feature script language lookups.location)
  else
    .ok (features.insert feature (scripts.insert script (languages.insert language lookups)))

/-- Takes in the features of the languages of a script. -/
def addLanguages (features : LanguageSystems) (script : ScriptDefinition) :
    Except ConversionError LanguageSystems :=
  script.languages.foldlM (fun features language =>
    language.features.foldlM (fun features feature =>
      addLanguageSystem features feature.tag script.tag language.tag
        ⟨feature.lookups, feature.location⟩) features) features

/-- Takes in the definition of a script. -/
def addScript (definitions : Definitions) (script : ScriptDefinition) :
    Except ConversionError Definitions := do
  return { definitions with features := ← addLanguages definitions.features script }

/-- The mark class that an anchor of the given name puts its glyph into. -/
def markClassOf? (anchor : String) : Option String :=
  match anchor.toList with
  | 'M' :: 'A' :: 'R' :: 'K' :: '_' :: rest => some (String.ofList rest)
  | _ => none

/-- Gives a mark class a name in feature files, unless it has one. -/
def nameMarkClass (definitions : Definitions) (markClass : String) : Definitions :=
  if definitions.markClasses.contains markClass then
    definitions
  else
    let (className, classNames) := definitions.classNames.identify markClass
    { definitions with
      classNames
      markClasses := definitions.markClasses.insert markClass className }

/-- Puts a glyph into a mark class at the given point. -/
def addMarkAnchor (definitions : Definitions) (place : MarkPlace) (point : Anchor) :
    Definitions :=
  let named := definitions.nameMarkClass place.member.markClass
  { named with markAnchors := named.markAnchors.insert place point }

/-- Gives a glyph an anchor at the given point. -/
def addBaseAnchor (definitions : Definitions) (glyph name : String) (component : UInt16)
    (point : Anchor) : Definitions :=
  let ofGlyph := definitions.anchors.getD glyph ∅
  let points := (ofGlyph.getD name ∅).insert component point
  { definitions with anchors := definitions.anchors.insert glyph (ofGlyph.insert name points) }

/-- Takes in the definition of an anchor. -/
def addAnchor (definitions : Definitions) (anchor : AnchorDefinition) : Outcome Definitions := do
  let placement := anchor.placement
  Outcome.tellIf (!placement.advanceDevices.isEmpty)
    (.advanceDevicesDropped anchor.location anchor.name anchor.glyph)
  let point : Anchor :=
    ⟨placement.dx.getD 0, placement.dy.getD 0, placement.xDevices, placement.yDevices⟩
  match markClassOf? anchor.name with
  | some markClass =>
      return definitions.addMarkAnchor ⟨⟨anchor.glyph, markClass⟩, anchor.component⟩ point
  | none => return definitions.addBaseAnchor anchor.glyph anchor.name anchor.component point

/-- The name is that of a setting of the compiler. -/
def isCompilerSetting (name : String) : Bool :=
  "COMPILER_".toList.isPrefixOf name.toList

/-- Takes in a setting. -/
def addSetting (definitions : Definitions) (setting : Setting) : Outcome Definitions :=
  if isCompilerSetting setting.name then
    return { definitions with
      settings := definitions.settings.insert setting.name setting.values }
  else do
    Outcome.tell (.settingIgnored setting.name)
    return definitions

/-- Takes in a statement. -/
def add (definitions : Definitions) : Statement → Outcome Definitions
  | .glyph glyph => definitions.addGlyph glyph
  | .group group => definitions.addGroup group
  | .script script => definitions.addScript script
  | .anchor anchor => definitions.addAnchor anchor
  | .setting setting => definitions.addSetting setting
  | .lookup _ => return definitions

/-- The definitions of a project, for a font with the given glyph order. -/
def collect (statements : List Statement) (glyphOrder : Option GlyphOrder) :
    Outcome Definitions := do
  let definitions ← statements.foldlM add { glyphOrder }
  Outcome.tell (.collected definitions.glyphs.size definitions.groups.size
    definitions.anchors.size definitions.features.size)
  return definitions

end Definitions
end GlyphLayout
