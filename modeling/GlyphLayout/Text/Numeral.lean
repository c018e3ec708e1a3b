/-!
# Numerals

Reading integers of a fixed width.  A numeral is an optional sign and at least one digit;
leading zeros are allowed, and a value outside the width is refused.  Only the signed widths
take a minus sign.
-/

namespace GlyphLayout
namespace Text

/-- The value of a digit in a base of at most sixteen. -/
def digit? (base : Nat) (c : Char) : Option Nat :=
  let value :=
    if c.isDigit then some (c.toNat - '0'.toNat)
    else if 'a' ≤ c ∧ c ≤ 'f' then some (c.toNat - 'a'.toNat + 10)
    else if 'A' ≤ c ∧ c ≤ 'F' then some (c.toNat - 'A'.toNat + 10)
    else none
  value.filter (· < base)

/-- The value of a non-empty run of digits. -/
def digits? (base : Nat) (cs : List Char) : Option Nat :=
  if cs.isEmpty then none
  else cs.foldlM (fun value c => (digit? base c).map (base * value + ·)) 0

/-- The value of a run of digits after an optional plus sign. -/
def natural? (base : Nat) : List Char → Option Nat
  | '+' :: cs => digits? base cs
  | cs => digits? base cs

/-- The value of a run of decimal digits after an optional sign. -/
def integer? : List Char → Option Int
  | '-' :: cs => (digits? 10 cs).map fun value => -(value : Int)
  | cs => (natural? 10 cs).map fun value => (value : Int)

/-- A decimal value below `2 ^ 16`. -/
def uint16? (s : String) : Option UInt16 :=
  (natural? 10 s.toList).bind fun value =>
    if value < 0x10000 then some (UInt16.ofNat value) else none

/-- A value below `2 ^ 32` in a base. -/
def uint32? (base : Nat) (cs : List Char) : Option UInt32 :=
  (natural? base cs).bind fun value =>
    if value < 0x100000000 then some (UInt32.ofNat value) else none

/-- A decimal value from `-2 ^ 15` up to `2 ^ 15`, the upper end left out. -/
def int16? (s : String) : Option Int16 :=
  (integer? s.toList).bind fun value =>
    if -0x8000 ≤ value ∧ value < 0x8000 then some (Int16.ofInt value) else none

/-- A decimal value from `-2 ^ 31` up to `2 ^ 31`, the upper end left out. -/
def int32? (s : String) : Option Int32 :=
  (integer? s.toList).bind fun value =>
    if -0x80000000 ≤ value ∧ value < 0x80000000 then some (Int32.ofInt value) else none

/-- A decimal value below `2 ^ 64`. -/
def bounded64? (s : String) : Option Nat :=
  (natural? 10 s.toList).filter (· < 0x10000000000000000)

/-- The text is a decimal numeral of at most 64 bits with its sign. -/
def isNumeral (s : String) : Bool :=
  match integer? s.toList with
  | some value => -0x8000000000000000 ≤ value && value < 0x8000000000000000
  | none => false

end Text
end GlyphLayout
