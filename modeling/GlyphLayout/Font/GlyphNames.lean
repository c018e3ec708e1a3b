import GlyphLayout.Definitions.GlyphOrder
import GlyphLayout.Error
import GlyphLayout.Font.StandardNames
import GlyphLayout.Font.Table

/-!
# Glyph names of a font

One table of a font has the number of its glyphs, another their names.  Names are standard
ones, or they stand in the table as strings behind their lengths.
-/

namespace GlyphLayout
namespace Font

/-- A table that must be there. -/
def requireTable (data : ByteArray) (records : List TableRecord) (tag : String) :
    Except FontError ByteArray :=
  match table? data records tag with
  | some table => .ok table
  | none => .error (.missingTable tag)

/-- A part of a table that must be there. -/
def requirePart {α : Type} (part : Option α) : Except FontError α :=
  match part with
  | some value => .ok value
  | none => .error .outOfBounds

/-- The number of glyphs. -/
def glyphCount (table : ByteArray) : Except FontError Nat := do
  let version ← requirePart (uint32At? table 0)
  let count ← requirePart (uint16At? table 4)
  if version / 0x10000 = 1 ∧ table.size < 32 then throw .outOfBounds else return count

/-- The text of some bytes, if all of them are ASCII. -/
def asciiText? (bytes : List UInt8) : Option String :=
  if bytes.all (· < 0x80) then some (String.ofList (bytes.map fun byte => Char.ofNat byte.toNat))
  else none

/-- The strings that stand behind their lengths; none for one that is not ASCII or cut short. -/
def lengthStrings (bytes : List UInt8) : List (Option String) :=
  match bytes with
  | [] => []
  | length :: rest =>
      let text := rest.take length.toNat
      if text.length < length.toNat then [none]
      else asciiText? text :: lengthStrings (rest.drop length.toNat)
termination_by bytes.length
decreasing_by
  simp only [List.length_drop, List.length_cons]
  omega

/-- How the names of glyphs are stored. -/
inductive NameTable where
  /-- The standard names in order. -/
  | standard
  /-- The numbers of the names; those behind the standard ones belong to the strings. -/
  | indexed (numbers : Array Nat) (strings : Array (Option String))
  /-- There are no names. -/
  | nameless
deriving Repr, DecidableEq

/-- Reads the table of names. -/
def nameTable (table : ByteArray) : Except FontError NameTable := do
  let version ← requirePart (uint32At? table 0)
  if table.size < 32 then
    throw .outOfBounds
  else if version / 0x10000 = 2 then
    let count ← requirePart (uint16At? table 32)
    let numbers ← requirePart
      ((List.range count).mapM fun index => uint16At? table (34 + 2 * index))
    if version = 0x20000 then
      let strings := lengthStrings ((table.data.toList).drop (34 + 2 * count))
      return .indexed numbers.toArray strings.toArray
    else
      return .nameless
  else if version = 0x10000 then
    return .standard
  else
    return .nameless

/-- The name of a glyph. -/
def NameTable.name? (table : NameTable) (glyph : Nat) : Option String :=
  match table with
  | standard => standardNames[glyph]?
  | indexed numbers strings => do
      let number ← numbers[glyph]?
      if number < standardNames.size then standardNames[number]?
      else (strings[number - standardNames.size]?).join
  | nameless => none

/-- The glyph order of a font. -/
def glyphOrder (data : ByteArray) (records : List TableRecord) : Except FontError GlyphOrder := do
  let count ← glyphCount (← requireTable data records "maxp")
  let names ← nameTable (← requireTable data records "post")
  match (List.range count).mapM names.name? with
  | some names => return ⟨names.toArray⟩
  | none => throw .missingNames

end Font
end GlyphLayout
