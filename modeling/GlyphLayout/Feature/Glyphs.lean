import GlyphLayout.Text.Joined

/-!
# Glyph references

What a rule refers to: a glyph, a named class, or a class written out in place.  Inside a
class written out in place there is never another one; `Glyphs.flatten` and
`Glyphs.collapse` build references that keep to this when their parts do.
-/

namespace GlyphLayout
namespace Feature

/-- A glyph, a named class of glyphs, or a class written out in place. -/
inductive Glyphs where
  | glyph (name : String)
  | named (className : String)
  | inline (members : List Glyphs)
deriving Repr

/-- The words that a feature file would not take for the name of a glyph. -/
def reservedWords : List String := [
  "anchor", "anchorDef", "anon", "anonymous", "by", "contour", "cursive", "device", "enum",
  "enumerate", "exclude_dflt", "excludeDFLT", "feature", "from", "ignore", "IgnoreBaseGlyphs",
  "IgnoreLigatures", "IgnoreMarks", "include", "include_dflt", "includeDFLT", "language",
  "languagesystem", "lookup", "lookupflag", "mark", "MarkAttachmentType", "markClass", "nameid",
  "NULL", "parameters", "pos", "position", "required", "reversesub", "RightToLeft", "rsub",
  "script", "sub", "substitute", "subtable", "table", "useExtension", "UseMarkFilteringSet",
  "valueRecordDef"]

/-- The name of a glyph, behind a backslash if it is a reserved word. -/
def glyphText (name : String) : String :=
  if reservedWords.contains name then "\\" ++ name else name

namespace Glyphs

mutual

/-- A reference as a feature file has it. -/
def text : Glyphs → String
  | glyph name => glyphText name
  | named className => "@" ++ className
  | inline members => "[" ++ Text.joined " " (texts members) ++ "]"

/-- Each of some references as a feature file has it. -/
def texts : List Glyphs → List String
  | [] => []
  | item :: rest => item.text :: texts rest

end

theorem texts_eq_map (items : List Glyphs) : texts items = items.map text := by
  induction items with
  | nil => rfl
  | cons item rest ih => simp [texts, ih]

/-- The members of a class written out in place, and any other reference itself. -/
def parts : Glyphs → List Glyphs
  | inline members => members
  | item => [item]

/-- A class of some references, which takes in the members of those written out in place. -/
def flatten (items : List Glyphs) : Glyphs :=
  inline (items.flatMap parts)

/-- One reference for a sequence: its only item, or a class of all its items. -/
def collapse : List Glyphs → Glyphs
  | [item] => item
  | items => flatten items

mutual

/-- Equality of references is decidable. -/
def decEq : (first second : Glyphs) → Decidable (first = second)
  | glyph first, glyph second =>
      if same : first = second then isTrue (same ▸ rfl)
      else isFalse fun equal => same (Glyphs.glyph.inj equal)
  | named first, named second =>
      if same : first = second then isTrue (same ▸ rfl)
      else isFalse fun equal => same (Glyphs.named.inj equal)
  | inline first, inline second =>
      match decEqList first second with
      | isTrue same => isTrue (same ▸ rfl)
      | isFalse different => isFalse fun equal => different (Glyphs.inline.inj equal)
  | glyph _, named _ | glyph _, inline _ | named _, glyph _ | named _, inline _
  | inline _, glyph _ | inline _, named _ => isFalse nofun

/-- Equality of lists of references is decidable. -/
def decEqList : (first second : List Glyphs) → Decidable (first = second)
  | [], [] => isTrue rfl
  | [], _ :: _ | _ :: _, [] => isFalse nofun
  | first :: firsts, second :: seconds =>
      match decEq first second, decEqList firsts seconds with
      | isTrue head, isTrue tail => isTrue (head ▸ tail ▸ rfl)
      | isFalse different, _ => isFalse fun equal => different (List.cons.inj equal).1
      | _, isFalse different => isFalse fun equal => different (List.cons.inj equal).2

end

instance : DecidableEq Glyphs := decEq

end Glyphs
end Feature
end GlyphLayout
