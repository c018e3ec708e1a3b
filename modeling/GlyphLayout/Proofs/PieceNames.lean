import GlyphLayout.Lookup.PieceName
import GlyphLayout.Proofs.Source.Numerals
import Mathlib.Data.List.TakeWhile

/-!
# Names of pieces

Which names are those of pieces is said without the reader: a base, a backslash and the digits of a
number.  A name is taken apart in this way exactly if it has this form, so the backslash is its last
one, whatever the base holds.  A name of any other form is left whole.
-/

namespace GlyphLayout
namespace LookupId

/--
The name is a base, a backslash and a number of at most 32 bits.  The base is not empty, and the
digits of the number may begin with zeros.
-/
structure IsPieceName (name base : String) (number : Nat) : Prop where
  based : base ≠ ""
  narrow : number < 0x100000000
  written : ∃ digits : List Char, digits ≠ [] ∧ (∀ c ∈ digits, c.isDigit)
    ∧ name = base ++ "\\" ++ String.ofList digits ∧ Nat.ofDigitChars 10 digits 0 = number

/-! ## From the end of a name -/

/-- Digits behind a backslash are read as a number if it has at most 32 bits. -/
theorem pieceOfReversed?_append
    {digits : List Char}
    (filled : digits ≠ [])
    (areDigits : ∀ c ∈ digits, c.isDigit)
    (last : Char)
    (front : List Char) :
    pieceOfReversed? (digits.reverse ++ '\\' :: last :: front) =
      if Nat.ofDigitChars 10 digits 0 < 0x100000000
      then some (String.ofList (last :: front).reverse,
        UInt32.ofNat (Nat.ofDigitChars 10 digits 0))
      else none := by
  have areDigitsReversed : ∀ c ∈ digits.reverse, c.isDigit := fun c member =>
    areDigits c (List.mem_reverse.mp member)
  have taken : (digits.reverse ++ '\\' :: last :: front).takeWhile Char.isDigit =
      digits.reverse := by
    rw [List.takeWhile_append_of_pos areDigitsReversed]
    exact List.append_nil _
  have dropped : (digits.reverse ++ '\\' :: last :: front).dropWhile Char.isDigit =
      '\\' :: last :: front :=
    List.dropWhile_append_of_pos areDigitsReversed
  rw [pieceOfReversed?, dropped, taken, List.reverse_reverse]
  dsimp only
  rw [Text.digits?_of_isDigit filled areDigits]
  rfl

/-- What is taken off the end of a name is a number behind a backslash. -/
theorem isPieceName_of_pieceOfReversed?
    {name base : String}
    {number : UInt32}
    (found : pieceOfReversed? name.toList.reverse = some (base, number)) :
    IsPieceName name base number.toNat := by
  have areDigits : ∀ c ∈ name.toList.reverse.takeWhile Char.isDigit, c.isDigit :=
    fun _ => List.mem_takeWhile_imp
  have whole := List.takeWhile_append_dropWhile (p := Char.isDigit) (l := name.toList.reverse)
  unfold pieceOfReversed? at found
  generalize name.toList.reverse.takeWhile Char.isDigit = run at areDigits whole found
  generalize name.toList.reverse.dropWhile Char.isDigit = rest at whole found
  split at found
  case h_2 => cases found
  case h_1 last front =>
    have filled : run.reverse ≠ [] := by
      intro empty
      rw [empty] at found
      cases found
    have areDigitsForward : ∀ c ∈ run.reverse, c.isDigit := fun c member =>
      areDigits c (List.mem_reverse.mp member)
    dsimp only at found
    rw [Text.digits?_of_isDigit filled areDigitsForward] at found
    dsimp only at found
    split at found
    case isFalse => cases found
    case isTrue narrow =>
      cases found
      refine ⟨?_, UInt32.toNat_lt _, run.reverse, filled, areDigitsForward, ?_, ?_⟩
      · rw [ne_eq, String.ofList_eq_empty_iff, List.reverse_eq_nil_iff]
        exact List.cons_ne_nil _ _
      · apply String.toList_injective
        rw [← List.reverse_reverse name.toList, ← whole]
        simp
      · exact (UInt32.toNat_ofNat_of_lt' narrow).symm

/-! ## Names -/

/-- A name that is taken apart has the form of its parts, and any other name is left whole. -/
theorem isPieceName_or_ofName_eq (name : String) :
    (∃ number, (ofName name).piece = some number
        ∧ IsPieceName name (ofName name).base number.toNat)
      ∨ ofName name = ⟨name, none⟩ := by
  unfold ofName
  cases found : pieceOfReversed? name.toList.reverse with
  | some parts => exact .inl ⟨parts.2, rfl, isPieceName_of_pieceOfReversed? found⟩
  | none => exact .inr rfl

theorem IsPieceName.ofName_eq
    {name base : String}
    {number : Nat}
    (isName : IsPieceName name base number) :
    ofName name = ⟨base, some (UInt32.ofNat number)⟩ := by
  obtain ⟨based, narrow, digits, filled, areDigits, rfl, rfl⟩ := isName
  obtain ⟨last, front, reversed⟩ : ∃ last front, base.toList.reverse = last :: front :=
    List.exists_cons_of_ne_nil (by simpa using based)
  have chars : (base ++ "\\" ++ String.ofList digits).toList.reverse =
      digits.reverse ++ '\\' :: last :: front := by
    simp [reversed]
  have again : String.ofList (last :: front).reverse = base := by
    rw [← reversed, List.reverse_reverse, String.ofList_toList]
  rw [ofName, chars, pieceOfReversed?_append filled areDigits, if_pos narrow, again]

/-- A name that is generated for a piece other than the first has the form of such names. -/
theorem isPieceName_pieceName
    {base : String}
    {index : Nat}
    (based : base ≠ "")
    (further : 1 ≤ index)
    (narrow : index ≤ 0x100000000 - 2) :
    IsPieceName (pieceName base index) base (index + 1) where
  based := based
  narrow := by omega
  written := by
    have areDigits : ∀ c ∈ Nat.toDigits 10 (index + 1), c.isDigit := fun _ member =>
      Nat.isDigit_of_mem_toDigits (by decide) (by decide) member
    refine ⟨_, Nat.toDigits_ne_nil, areDigits, ?_, Nat.ofDigitChars_ten_toDigits⟩
    rw [pieceName, if_neg (by omega)]
    rfl

/--
A name is taken apart into a base and a number exactly if it is the base, a backslash and digits
for the number, and left whole if it has no such form.  So what is generated for a piece other than
the first is read back, up to the last number of 32 bits.
-/
theorem ofName_exact :
    (∀ name base number,
        (ofName name).base = base ∧ (ofName name).piece.map UInt32.toNat = some number ↔
          IsPieceName name base number)
      ∧ (∀ name, (¬ ∃ base number, IsPieceName name base number) → ofName name = ⟨name, none⟩)
      ∧ ∀ base index, base ≠ "" → 1 ≤ index → index ≤ 0x100000000 - 2 →
          ofName (pieceName base index) = ⟨base, some (UInt32.ofNat (index + 1))⟩ := by
  refine ⟨fun name base number => ⟨?_, fun isName => ?_⟩, fun name noName => ?_,
    fun base index based further narrow => ?_⟩
  · rintro ⟨rfl, reported⟩
    rcases isPieceName_or_ofName_eq name with ⟨found, piece, isName⟩ | whole
    · rw [piece, Option.map_some, Option.some.injEq] at reported
      exact reported ▸ isName
    · rw [whole] at reported
      cases reported
  · rw [isName.ofName_eq]
    exact ⟨rfl, congrArg some (UInt32.toNat_ofNat_of_lt' isName.narrow)⟩
  · rcases isPieceName_or_ofName_eq name with ⟨number, _, isName⟩ | whole
    · exact absurd ⟨_, _, isName⟩ noName
    · exact whole
  · exact (isPieceName_pieceName based further narrow).ofName_eq

theorem ofName_exact_nestedBase :
    IsPieceName "kern\\pairs\\007" "kern\\pairs" 7
      ∧ (ofName "kern\\pairs\\007").base = "kern\\pairs"
      ∧ (ofName "kern\\pairs\\007").piece.map UInt32.toNat = some 7
      ∧ (¬ ∃ base number, IsPieceName "kern\\4294967296" base number)
      ∧ ofName "kern\\4294967296" = ⟨"kern\\4294967296", none⟩
      ∧ ofName (pieceName "kern\\1" 4294967294) = ⟨"kern\\1", some 4294967295⟩ := by
  obtain ⟨exactly, whole, generated⟩ := ofName_exact
  have areDigits : ∀ c ∈ ['0', '0', '7'], c.isDigit := by
    simp only [List.forall_mem_cons, List.not_mem_nil, false_implies, implies_true]
    decide
  have nested : IsPieceName "kern\\pairs\\007" "kern\\pairs" 7 :=
    ⟨by decide, by decide, ['0', '0', '7'], by decide, areDigits, by decide, by decide⟩
  have wide : ¬ ∃ base number, IsPieceName "kern\\4294967296" base number := by
    rintro ⟨base, number, isName⟩
    have none : (ofName "kern\\4294967296").piece = none := by decide +kernel
    have found := ((exactly _ base number).mpr isName).2
    rw [none] at found
    cases found
  obtain ⟨base, piece⟩ := (exactly _ _ _).mpr nested
  exact ⟨nested, base, piece, wide, whole _ wide,
    generated _ 4294967294 (by decide) (by decide) (by decide)⟩

end LookupId
end GlyphLayout
