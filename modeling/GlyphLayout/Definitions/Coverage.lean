import GlyphLayout.Definitions.Basic
import GlyphLayout.Source.Statement

/-!
# Coverages

A coverage is resolved into references of a feature file, one for each item, or expanded into
the glyphs that it holds, in order and with repetitions.  A range can be resolved only with
the glyph order of the font, and runs from the id of its first glyph up to the id of its last.
-/

namespace GlyphLayout
namespace Definitions

open Feature (Glyphs)
open Source (Coverage CoverageItem Location)

variable (definitions : Definitions)

/-- The name of a glyph in a feature file; a glyph that is not defined keeps its name. -/
def outputName (glyph : String) : String :=
  match definitions.glyphs.get? glyph with
  | some entry => entry.outputName
  | none => glyph

/-- The id of an end of a range. -/
def rangeEnd (glyph : String) (location : Location) : Except ConversionError UInt16 :=
  match definitions.glyphs.get? glyph with
  | some entry => .ok entry.id
  | none => .error (.unknownRangeGlyph glyph location)

/-- The ids from one up to another, both included. -/
def idsBetween (first last : UInt16) : List UInt16 :=
  (List.range' first.toNat (last.toNat + 1 - first.toNat)).map UInt16.ofNat

/-- The glyph order that a range starting with the given glyph needs. -/
def orderForRange (first : String) (location : Location) : Except ConversionError GlyphOrder :=
  match definitions.glyphOrder with
  | some order => .ok order
  | none => .error (.missingGlyphOrder first location)

/-- The ids of the glyphs of a range. -/
def rangeIds (first last : String) (location : Location) :
    Except ConversionError (List UInt16) := do
  let _ ← definitions.orderForRange first location
  return idsBetween (← definitions.rangeEnd first location)
    (← definitions.rangeEnd last location)

/-- The name that the glyph order gives to an id of a range. -/
def nameInRange (first : String) (location : Location) (id : UInt16) :
    Except ConversionError String := do
  let order ← definitions.orderForRange first location
  match order.get? id with
  | some name => return name
  | none => throw (.glyphIdOutOfRange first id order.size location)

mutual

/-- The reference for an item of a coverage. -/
def resolveItem (location : Location) : CoverageItem → Except ConversionError Glyphs
  | .glyph name => return .glyph (definitions.outputName name)
  | .group name => do
      let group ← definitions.group name location
      return .named group.className
  | .enumeration items => do
      return .flatten (← resolve location items)
  | .range first last => do
      let ids ← definitions.rangeIds first last location
      let names ← ids.mapM (definitions.nameInRange first location)
      return .inline (names.map .glyph)

/-- The references for the items of a coverage. -/
def resolve (location : Location) : List CoverageItem → Except ConversionError (List Glyphs)
  | [] => return []
  | item :: rest => do
      let first ← resolveItem location item
      let others ← resolve location rest
      return first :: others

end

/-- One sequence of references for several coverages. -/
def resolveSequence (location : Location) (coverages : List Coverage) :
    Except ConversionError (List Glyphs) := do
  return (← coverages.mapM (definitions.resolve location)).flatten

/-- One reference for a whole coverage. -/
def resolveCollapsed (location : Location) (coverage : Coverage) :
    Except ConversionError Glyphs := do
  return .collapse (← definitions.resolve location coverage)

/-- The name that the project uses for an id of a range. -/
def glyphInRange (first : String) (location : Location) (id : UInt16) :
    Except ConversionError String :=
  match definitions.namesById.get? id with
  | some name => .ok name
  | none => definitions.nameInRange first location id

mutual

/-- The glyphs of an item of a coverage. -/
def expandItem (location : Location) : CoverageItem → Except ConversionError (List String)
  | .glyph name => return [name]
  | .group name => do
      let group ← definitions.group name location
      return group.glyphs
  | .enumeration items => expand location items
  | .range first last => do
      let ids ← definitions.rangeIds first last location
      ids.mapM (definitions.glyphInRange first location)

/-- The glyphs of a coverage. -/
def expand (location : Location) : List CoverageItem → Except ConversionError (List String)
  | [] => return []
  | item :: rest => do
      let first ← expandItem location item
      let others ← expand location rest
      return first ++ others

end

/-- The number of glyphs of a coverage, repetitions included. -/
def glyphCount (location : Location) (coverage : Coverage) : Except ConversionError Nat := do
  return (← definitions.expand location coverage).length

end Definitions
end GlyphLayout
