import GlyphLayout.Tag
import GlyphLayout.Text.Joined
import GlyphLayout.Text.Numeral

/-!
# Numerals that are read back

An integer written in decimal is read as itself by each reader whose width holds it, and a
natural number written in hexadecimal is read as itself too.
-/

namespace GlyphLayout
namespace Text

/-! ## Digits -/

theorem digit?_digitChar {value : Nat} (below : value < 10) :
    digit? 10 (Nat.digitChar value) = some value := by
  revert value
  decide

theorem digit?_upper_digitChar {value : Nat} (below : value < 16) :
    digit? 16 (Nat.digitChar value).toUpper = some value := by
  revert value
  decide

/-- A sign is no digit. -/
theorem digit?_sign {base : Nat} {sign : Char} (either : sign = '+' ∨ sign = '-') :
    digit? base sign = none := by
  rcases either with rfl | rfl <;> rfl

/-- The digits of a number are read as the number, if each digit is read as its value. -/
theorem digits?_toDigits
    (base : Nat)
    (write : Char → Char)
    (two : 1 < base)
    (reads : ∀ value < base, digit? base (write (Nat.digitChar value)) = some value)
    (value : Nat) :
    digits? base ((Nat.toDigits base value).map write) = some value := by
  have filled (value : Nat) : ((Nat.toDigits base value).map write).isEmpty = false := by
    simp [Nat.toDigits_ne_nil]
  induction value using Nat.strongRecOn with
  | ind value ih =>
      rw [digits?, filled, if_neg Bool.false_ne_true]
      by_cases small : value < base
      · rw [Nat.toDigits_of_lt_base small]
        simp [reads value small]
      · have large : base ≤ value := Nat.le_of_not_lt small
        have front := ih (value / base) (Nat.div_lt_self (by omega) two)
        have last := reads (value % base) (Nat.mod_lt _ (by omega))
        rw [digits?, filled, if_neg Bool.false_ne_true] at front
        rw [Nat.toDigits_of_base_le two large, List.map_append, List.foldlM_append, front]
        simp [last, Nat.div_add_mod]

theorem digit?_of_isDigit {c : Char} (digit : c.isDigit) :
    digit? 10 c = some (c.toNat - '0'.toNat) := by
  have bounds := digit
  simp only [Char.isDigit, Bool.and_eq_true, decide_eq_true_eq] at bounds
  have low : c.toNat ≤ 57 := bounds.2
  have small : c.toNat - 48 < 10 := by omega
  simp [digit?, digit, small]

/-- Decimal digits are read as their value. -/
theorem digits?_of_isDigit
    {cs : List Char}
    (filled : cs ≠ [])
    (areDigits : ∀ c ∈ cs, c.isDigit) :
    digits? 10 cs = some (Nat.ofDigitChars 10 cs 0) := by
  have run (value : Nat) :
      cs.foldlM (fun value c => (digit? 10 c).map (10 * value + ·)) value =
        some (Nat.ofDigitChars 10 cs value) := by
    clear filled
    induction cs generalizing value with
    | nil => rfl
    | cons c cs ih =>
        obtain ⟨digit, others⟩ := List.forall_mem_cons.mp areDigits
        rw [List.foldlM_cons, digit?_of_isDigit digit]
        exact ih others _
  rw [digits?, if_neg (by simpa using filled), run]

variable {base : Nat} {cs : List Char}

/-- A run of digits does not begin with a sign. -/
theorem sign_not_head
    {sign : Char} {rest : List Char} {value : Nat}
    (either : sign = '+' ∨ sign = '-')
    (found : digits? base (sign :: rest) = some value) :
    False := by
  simp [digits?, digit?_sign either] at found

theorem natural?_of_digits? {value : Nat} (found : digits? base cs = some value) :
    natural? base cs = some value := by
  unfold natural?
  split
  · exact (sign_not_head (.inl rfl) found).elim
  · exact found

theorem integer?_of_digits? {value : Nat} (found : digits? 10 cs = some value) :
    integer? cs = some (value : Int) := by
  unfold integer?
  split
  · exact (sign_not_head (.inr rfl) found).elim
  · rw [natural?_of_digits? found]
    rfl

/-! ## Written integers -/

theorem digits?_decimal_ofNat (magnitude : Nat) :
    digits? 10 (decimal (magnitude : Int)).toList = some magnitude := by
  have read := digits?_toDigits 10 id (by decide)
    (fun value below => digit?_digitChar below) magnitude
  rw [List.map_id] at read
  change digits? 10 (String.ofList (Nat.toDigits 10 magnitude)).toList = some magnitude
  rwa [String.toList_ofList]

theorem natural?_decimal_ofNat (magnitude : Nat) :
    natural? 10 (decimal (magnitude : Int)).toList = some magnitude :=
  natural?_of_digits? (digits?_decimal_ofNat magnitude)

/-- An integer in decimal is read as the integer. -/
theorem integer?_decimal (value : Int) : integer? (decimal value).toList = some value := by
  cases value with
  | ofNat magnitude => exact integer?_of_digits? (digits?_decimal_ofNat magnitude)
  | negSucc below =>
      have read := digits?_decimal_ofNat (below + 1)
      change digits? 10 (String.ofList (Nat.toDigits 10 (below + 1))).toList = _ at read
      rw [String.toList_ofList] at read
      simp [decimal, integer?, read, Int.negSucc_eq]

/-- An integer in decimal is no text that reads as no integer. -/
theorem decimal_ne
    {text : String}
    (notNumeral : integer? text.toList = none)
    (value : Int) :
    decimal value ≠ text := by
  rintro rfl
  rw [integer?_decimal] at notNumeral
  cases notNumeral

theorem uint16?_decimal (value : UInt16) : uint16? (decimal value.toNat) = some value := by
  have below := value.toNat_lt
  have width : value.toNat < 0x10000 := by omega
  simp [uint16?, natural?_decimal_ofNat, width]

theorem uint32?_decimal (value : UInt32) :
    uint32? 10 (decimal value.toNat).toList = some value := by
  have below := value.toNat_lt
  have width : value.toNat < 0x100000000 := by omega
  simp [uint32?, natural?_decimal_ofNat, width]

theorem int16?_decimal (value : Int16) : int16? (decimal value.toInt) = some value := by
  have above := value.le_toInt
  have below := value.toInt_lt
  have width : -0x8000 ≤ value.toInt ∧ value.toInt < 0x8000 := by omega
  simp [int16?, integer?_decimal, width]

theorem int32?_decimal (value : Int32) : int32? (decimal value.toInt) = some value := by
  have above := value.le_toInt
  have below := value.toInt_lt
  have width : -0x80000000 ≤ value.toInt ∧ value.toInt < 0x80000000 := by omega
  simp [int32?, integer?_decimal, width]

theorem uint32?_upperHex (value : UInt32) :
    uint32? 16 (upperHex value.toNat).toList = some value := by
  have below := value.toNat_lt
  have width : value.toNat < 0x100000000 := by omega
  have read := digits?_toDigits 16 Char.toUpper (by decide)
    (fun value below => digit?_upper_digitChar below) value.toNat
  simp [uint32?, upperHex, natural?_of_digits? read, width]

/-- An integer of at most 64 bits with its sign is written as a numeral. -/
theorem isNumeral_decimal
    {value : Int}
    (above : -0x8000000000000000 ≤ value)
    (below : value < 0x8000000000000000) :
    isNumeral (decimal value) = true := by
  simp [isNumeral, integer?_decimal, above, below]

theorem isNumeral_decimal_uint16 (value : UInt16) :
    isNumeral (decimal value.toNat) = true := by
  have below := value.toNat_lt
  exact isNumeral_decimal (by omega) (by omega)

theorem isNumeral_decimal_int32 (value : Int32) : isNumeral (decimal value.toInt) = true := by
  have above := value.le_toInt
  have below := value.toInt_lt
  exact isNumeral_decimal (by omega) (by omega)

/-! ## Characters of numerals -/

/-- The characters of a numeral are digits, but for a sign. -/
theorem isDigit_of_mem_decimal {value : Int} {c : Char} (member : c ∈ (decimal value).toList) :
    c = '-' ∨ c.isDigit = true := by
  have digits (magnitude : Nat) (inside : c ∈ Nat.toDigits 10 magnitude) : c.isDigit = true :=
    Nat.isDigit_of_mem_toDigits (by decide) (by decide) inside
  cases value with
  | ofNat magnitude =>
      simp only [decimal, String.toList_ofList] at member
      exact .inr (digits _ member)
  | negSucc below =>
      simp only [decimal, String.toList_append, String.toList_ofList, List.mem_append] at member
      rcases member with sign | inside
      · exact .inl (by simpa using sign)
      · exact .inr (digits _ inside)

theorem decimal_ne_nil (value : Int) : (decimal value).toList ≠ [] := by
  intro none
  have read := integer?_decimal value
  simp [none, integer?, natural?, digits?] at read

/-- The characters of a number stand for digits. -/
theorem exists_digit_of_mem_toDigits
    (two : 1 < base)
    {value : Nat} {c : Char}
    (member : c ∈ Nat.toDigits base value) :
    ∃ digit < base, c = Nat.digitChar digit := by
  induction value using Nat.strongRecOn with
  | ind value ih =>
      by_cases small : value < base
      · rw [Nat.toDigits_of_lt_base small, List.mem_singleton] at member
        exact ⟨value, small, member⟩
      · have large : base ≤ value := Nat.le_of_not_lt small
        rw [Nat.toDigits_of_base_le two large, List.mem_append, List.mem_singleton] at member
        rcases member with front | last
        · exact ih (value / base) (Nat.div_lt_self (by omega) two) front
        · exact ⟨value % base, Nat.mod_lt _ (by omega), last⟩

/-- What holds of all hexadecimal digits holds of the characters of a number. -/
theorem forall_mem_upperHex
    (holds : Char → Prop)
    (digits : ∀ digit < 16, holds (Nat.digitChar digit).toUpper)
    (value : Nat) :
    ∀ c ∈ (upperHex value).toList, holds c := by
  intro c member
  rw [upperHex, String.toList_ofList, List.mem_map] at member
  obtain ⟨digit, inside, rfl⟩ := member
  obtain ⟨value, below, rfl⟩ := exists_digit_of_mem_toDigits (by decide) inside
  exact digits value below

end Text
end GlyphLayout
