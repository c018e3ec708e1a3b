/-!
# Tables of a font

A font is a header, a list of records and the tables that they point to.  Numbers are stored
with the most significant byte first.
-/

namespace GlyphLayout
namespace Font

/-- The two bytes at an offset as a number. -/
def uint16At? (data : ByteArray) (offset : Nat) : Option Nat := do
  let high ← data[offset]?
  let low ← data[offset + 1]?
  return high.toNat * 0x100 + low.toNat

/-- The four bytes at an offset as a number. -/
def uint32At? (data : ByteArray) (offset : Nat) : Option Nat := do
  let high ← uint16At? data offset
  let low ← uint16At? data (offset + 2)
  return high * 0x10000 + low

/-- The bytes of a text in ASCII. -/
def asciiBytes (text : String) : List UInt8 :=
  text.toList.map fun c => UInt8.ofNat c.toNat

/-- The number that four ASCII characters stand for as a tag. -/
def tagNumber (text : String) : Nat :=
  (asciiBytes text).foldl (fun number byte => number * 0x100 + byte.toNat) 0

/-- Where a table stands. -/
structure TableRecord where
  tag : Nat
  offset : Nat
  length : Nat
deriving Repr, DecidableEq

/-- The size of the header of a font. -/
def headerSize : Nat := 12

/-- The size of a record. -/
def recordSize : Nat := 16

/-- The record at an index. -/
def record? (data : ByteArray) (index : Nat) : Option TableRecord := do
  let start := headerSize + recordSize * index
  return ⟨← uint32At? data start, ← uint32At? data (start + 8), ← uint32At? data (start + 12)⟩

/-- The records of a font, if the bytes are those of one. -/
def records? (data : ByteArray) : Option (List TableRecord) := do
  let version ← uint32At? data 0
  let count ← uint16At? data 4
  if data.size < headerSize then
    none
  else if [0x00010000, tagNumber "OTTO", tagNumber "true"].contains version then
    if headerSize + recordSize * count ≤ data.size then (List.range count).mapM (record? data)
    else none
  else
    none

/-- The bytes of a table, if the font has it and all of it. -/
def table? (data : ByteArray) (records : List TableRecord) (tag : String) : Option ByteArray :=
  match records.find? (·.tag == tagNumber tag) with
  | some record =>
      if record.offset = 0 ∨ data.size < record.offset + record.length then none
      else some (data.extract record.offset (record.offset + record.length))
  | none => none

end Font
end GlyphLayout
