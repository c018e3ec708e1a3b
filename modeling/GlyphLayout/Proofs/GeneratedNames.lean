import GlyphLayout.Lookup.Compilation
import GlyphLayout.Proofs.PieceNames
import GlyphLayout.Proofs.Translation
import Mathlib.Data.List.Nodup

/-!
# Generated names

Helpers and further pieces are named after the lookup that they come from, with a suffix.  In
lowercase as well, such a name gives away the name of the lookup and the suffix: a suffix
starts with a character that has no part in the case of its neighbours, and no suffix ends in
another one.
-/

namespace GlyphLayout

namespace Text

/-- The character has no part in the case of the characters around it. -/
def EndsWord (c : Char) : Prop :=
  isCaseIgnorable c = false ∧ isCased c = false

/-- The lowercase form of the character is the character itself, wherever it stands. -/
def IsSmall (c : Char) : Prop :=
  c ≠ 'Σ' ∧ lowercaseChar c = [c]

theorem startsCased_append_cons
    {c : Char}
    (ends : EndsWord c)
    (cs rest : List Char) :
    startsCased (cs ++ c :: rest) = startsCased cs := by
  induction cs with
  | nil => simp [startsCased, ends.1, ends.2]
  | cons first cs ih =>
      cases ignorable : isCaseIgnorable first with
      | true => simpa [startsCased, ignorable] using ih
      | false => simp [startsCased, ignorable]

/-- Lowercasing goes up to the end of a word and on from there. -/
theorem lowercaseFrom_append_cons
    {c : Char}
    (ends : EndsWord c)
    (before cs rest : List Char) :
    lowercaseFrom before (cs ++ c :: rest) =
      lowercaseFrom before cs ++ lowercaseFrom (cs.reverse ++ before) (c :: rest) := by
  induction cs generalizing before with
  | nil => rfl
  | cons first cs ih =>
      rw [List.cons_append, lowercaseFrom, lowercaseFrom, startsCased_append_cons ends, ih,
        List.append_assoc, List.reverse_cons, List.append_assoc, List.singleton_append]

theorem lowercaseFrom_of_isSmall
    {cs : List Char}
    (small : ∀ c ∈ cs, IsSmall c)
    (before : List Char) :
    lowercaseFrom before cs = cs := by
  induction cs generalizing before with
  | nil => rfl
  | cons c cs ih =>
      obtain ⟨noSigma, same⟩ := small c (List.mem_cons_self ..)
      rw [lowercaseFrom, if_neg noSigma, same,
        ih fun other member => small other (List.mem_cons_of_mem c member)]
      rfl

/-- A small suffix that starts a word of its own stays as it is. -/
theorem lowercase_append
    {c : Char}
    {cs : List Char}
    (ends : EndsWord c)
    (small : ∀ other ∈ c :: cs, IsSmall other)
    (name : String) :
    lowercase (name ++ String.ofList (c :: cs)) = lowercase name ++ String.ofList (c :: cs) := by
  rw [lowercase, String.toList_append, String.toList_ofList, lowercaseFrom_append_cons ends,
    lowercaseFrom_of_isSmall small, String.ofList_append]
  rfl

theorem isSmall_of_isDigit {c : Char} (digit : c.isDigit) : IsSmall c := by
  simp only [Char.isDigit, Bool.and_eq_true, decide_eq_true_eq] at digit
  obtain ⟨low, high⟩ := digit
  have value : 48 ≤ c.toNat ∧ c.toNat ≤ 57 := ⟨low, high⟩
  constructor
  · rintro rfl
    exact absurd value.2 (by decide)
  · have same : c.toLower = c := by
      unfold Char.toLower
      rw [dif_neg]
      rintro ⟨upper, _⟩
      have : 65 ≤ c.toNat := upper
      omega
    rw [lowercaseChar, if_pos (by omega), same]

/-- Decimal numbers tell numbers apart. -/
theorem toDigits_injective
    {first second : Nat}
    (same : Nat.toDigits 10 first = Nat.toDigits 10 second) :
    first = second := by
  rw [← Nat.ofDigitChars_ten_toDigits (n := first), same, Nat.ofDigitChars_ten_toDigits]

end Text

open Source (LookupDefinition)

namespace Compilation

/-- What may stand behind the name of a lookup in a generated name. -/
inductive IsSuffix : List Char → Prop
  | target : IsSuffix [' ', 't', 'a', 'r', 'g', 'e', 't']
  | number {digits : List Char} (some : digits ≠ []) (areDigits : ∀ c ∈ digits, c.isDigit) :
      IsSuffix ('\\' :: digits)

theorem isSuffix_decimal (value : Nat) : IsSuffix ('\\' :: Nat.toDigits 10 value) :=
  .number Nat.toDigits_ne_nil fun _ member =>
    Nat.isDigit_of_mem_toDigits (by decide) (by decide) member

/-- The digits at the end of a suffix are none for a helper and all but one for a piece. -/
theorem IsSuffix.digits
    {suffix : List Char}
    (isSuffix : IsSuffix suffix)
    (name : List Char) :
    ((name ++ suffix).reverse.takeWhile Char.isDigit).length =
      if suffix.head? = some '\\' then suffix.length - 1 else 0 := by
  cases isSuffix with
  | target => simp
  | @number digits _ areDigits =>
      have reversed : ∀ c ∈ digits.reverse, c.isDigit := fun c member =>
        areDigits c (List.mem_reverse.mp member)
      rw [List.reverse_append, List.reverse_cons, List.append_assoc,
        List.takeWhile_append_of_pos reversed]
      simp

/-- The name of a lookup and the suffix can be told from a generated name. -/
theorem IsSuffix.append_inj
    {suffix other : List Char}
    (isSuffix : IsSuffix suffix)
    (isOther : IsSuffix other)
    {name another : List Char}
    (same : name ++ suffix = another ++ other) :
    name = another ∧ suffix = other := by
  have digits := isSuffix.digits name
  rw [same, isOther.digits another] at digits
  have lengths : suffix.length = other.length := by
    cases isSuffix with
    | target =>
        cases isOther with
        | target => rfl
        | number some => simp [some] at digits
    | number some =>
        cases isOther with
        | target =>
            have positive := List.length_pos_iff.mpr some
            simp at digits
            omega
        | number => simpa using digits.symm
  exact List.append_inj' same lengths

/-- A name with a suffix behind it. -/
def suffixed (name : String) (suffix : List Char) : String :=
  name ++ String.ofList suffix

theorem lowercase_suffixed
    {suffix : List Char}
    (isSuffix : IsSuffix suffix)
    (name : String) :
    Text.lowercase (suffixed name suffix) = suffixed (Text.lowercase name) suffix := by
  cases isSuffix with
  | target =>
      have small : ∀ c ∈ [' ', 't', 'a', 'r', 'g', 'e', 't'], Text.IsSmall c := by
        simp only [List.forall_mem_cons, Text.IsSmall, List.not_mem_nil, false_implies,
          implies_true]
        decide
      exact Text.lowercase_append ⟨by decide +kernel, by decide +kernel⟩ small name
  | @number digits _ areDigits =>
      have small : ∀ c ∈ '\\' :: digits, Text.IsSmall c :=
        List.forall_mem_cons.mpr ⟨by simp only [Text.IsSmall]; decide, fun c member =>
          Text.isSmall_of_isDigit (areDigits c member)⟩
      exact Text.lowercase_append ⟨by decide +kernel, by decide +kernel⟩ small name

theorem pieceName_succ (name : String) (index : Nat) :
    LookupId.pieceName name (index + 1) =
      suffixed name ('\\' :: Nat.toDigits 10 (index + 2)) := by
  have digits : Text.decimal (↑(index + 1) + 1) =
      String.ofList (Nat.toDigits 10 (index + 2)) := rfl
  rw [LookupId.pieceName, if_neg (Nat.succ_ne_zero index), digits, String.append_assoc,
    suffixed, ← List.singleton_append, String.ofList_append]

/-- The name of a piece ends in a suffix. -/
theorem exists_suffix_of_isPiece
    {name : String}
    (piece : (LookupId.ofName name).isPiece) :
    ∃ suffix, IsSuffix suffix ∧ name = suffixed (LookupId.ofName name).base suffix := by
  rcases LookupId.isPieceName_or_ofName_eq name with ⟨_, _, isName⟩ | whole
  · obtain ⟨digits, filled, areDigits, written, _⟩ := isName.written
    refine ⟨'\\' :: digits, .number filled areDigits, written.trans ?_⟩
    rw [suffixed, ← List.singleton_append, String.ofList_append, String.append_assoc]
  · rw [whole] at piece
    cases piece

/-! ## The names of a translation -/

section Names

variable {definitions : Definitions} {options : Options} {lookup : LookupDefinition}
  {drafts : List CompiledLookup}

theorem suffixed_ne_self
    {suffix : List Char}
    (isSuffix : IsSuffix suffix)
    (name : String) :
    suffixed name suffix ≠ name := by
  intro same
  have lengths := congrArg String.length same
  rw [suffixed, String.length_append, String.length_ofList] at lengths
  cases isSuffix <;> simp at lengths

theorem suffixed_inj
    {first second : List Char}
    (isFirst : IsSuffix first)
    (isSecond : IsSuffix second)
    {name other : String}
    (same : suffixed name first = suffixed other second) :
    name = other ∧ first = second := by
  have lists := congrArg String.toList same
  simp only [suffixed, String.toList_append, String.toList_ofList] at lists
  obtain ⟨names, suffixes⟩ := isFirst.append_inj isSecond lists
  exact ⟨String.toList_injective names, suffixes⟩

/-- No piece of a lookup is taken for its helper. -/
theorem pieceName_ne_helperName (name : String) (index : Nat) :
    LookupId.pieceName name index ≠ helperName name := by
  cases index with
  | zero => exact (suffixed_ne_self .target name).symm
  | succ index =>
      rw [pieceName_succ]
      intro same
      cases (suffixed_inj (isSuffix_decimal _) .target same).2

/-- The names of a definition's lookups: its own one, and generated ones. -/
def NamedAfter (name : String) (names : List String) : Prop :=
  ∃ suffixes : List (List Char), suffixes.Nodup ∧ (∀ suffix ∈ suffixes, IsSuffix suffix)
    ∧ names.Perm (name :: suffixes.map (suffixed name))

theorem namedAfter_singleton (name : String) : NamedAfter name [name] :=
  ⟨[], .nil, by simp, .refl _⟩

theorem namedAfter_helper (name : String) : NamedAfter name [helperName name, name] := by
  refine ⟨[[' ', 't', 'a', 'r', 'g', 'e', 't']], List.nodup_singleton _, ?_, .swap ..⟩
  exact List.forall_mem_singleton.mpr .target

theorem map_sourceName_pieceDrafts
    (whole : CompiledLookup)
    (pieces : List (List Feature.Rule))
    (index : Nat) :
    (pieceDrafts whole index pieces).map CompiledLookup.sourceName =
      (List.range' index pieces.length).map (LookupId.pieceName whole.sourceName) := by
  induction pieces generalizing index with
  | nil => rfl
  | cons rules rest ih =>
      rw [pieceDrafts, List.map_cons, ih, List.length_cons, List.range'_succ, List.map_cons]
      rfl

theorem namedAfter_pieces
    (whole : CompiledLookup)
    {pieces : List (List Feature.Rule)}
    (some : pieces ≠ []) :
    NamedAfter whole.sourceName
      ((pieceDrafts whole 0 pieces).map CompiledLookup.sourceName) := by
  obtain ⟨first, rest, rfl⟩ := List.exists_cons_of_ne_nil some
  refine ⟨(List.range' 0 rest.length).map fun index => '\\' :: Nat.toDigits 10 (index + 2),
    ?_, ?_, ?_⟩
  · refine List.Nodup.map (fun _ _ same => ?_) List.nodup_range'
    have digits := Text.toDigits_injective (List.cons.inj same).2
    omega
  · intro suffix member
    obtain ⟨index, _, rfl⟩ := List.mem_map.mp member
    exact isSuffix_decimal _
  · rw [map_sourceName_pieceDrafts, List.length_cons, List.range'_succ, List.map_cons]
    have further : (List.range' (0 + 1) rest.length).map (LookupId.pieceName whole.sourceName) =
        ((List.range' 0 rest.length).map fun index => '\\' :: Nat.toDigits 10 (index + 2)).map
          (suffixed whole.sourceName) := by
      rw [List.map_map, ← List.map_add_range' 0 rest.length 1, List.map_map]
      apply List.map_congr_left
      intro index _
      rw [Function.comp_apply, Nat.add_comm 1 index, pieceName_succ]
      rfl
    rw [further]
    rfl

theorem TranslatesPositioning.namedAfter
    {positioning : Source.Positioning}
    {contexts : List RuleContext}
    {draft : CompiledLookup}
    (translated :
      TranslatesPositioning definitions options lookup positioning contexts draft drafts) :
    NamedAfter draft.sourceName (drafts.map CompiledLookup.sourceName) := by
  cases translated with
  | whole => exact namedAfter_singleton _
  | @cut _ _ _ _ _ pieces _ _ _ _ _ _ several =>
      apply namedAfter_pieces { draft with kind := .pairs }
      rintro rfl
      simp at several
  | contextual =>
      rw [List.map_append]
      split
      · exact namedAfter_helper _
      · exact namedAfter_singleton _

theorem Translates.namedAfter (translated : Translates definitions options lookup drafts) :
    NamedAfter lookup.name (drafts.map CompiledLookup.sourceName) := by
  cases translated with
  | substitution => exact namedAfter_singleton _
  | positioning _ _ _ _ translated => exact translated.namedAfter

/-- Without a limit a piece is one of the project, and its name gives away its base. -/
theorem Translates.exists_suffix_of_isPiece
    (translated : Translates definitions options lookup drafts)
    (unlimited : options.pairLimit = none) :
    ∀ draft ∈ drafts, draft.id.isPiece →
      ∃ suffix, IsSuffix suffix ∧ draft.key = suffixed (Text.lowercase draft.id.base) suffix := by
  have own (draft : CompiledLookup)
      (named : draft.id = LookupId.ofName draft.sourceName)
      (piece : draft.id.isPiece) :
      ∃ suffix, IsSuffix suffix
        ∧ draft.key = suffixed (Text.lowercase draft.id.base) suffix := by
    rw [named] at piece ⊢
    obtain ⟨suffix, isSuffix, whole⟩ := Compilation.exists_suffix_of_isPiece piece
    refine ⟨suffix, isSuffix, ?_⟩
    rw [← lowercase_suffixed isSuffix, ← whole]
    rfl
  cases translated with
  | substitution => exact List.forall_mem_singleton.mpr (own _ rfl)
  | positioning _ _ _ _ translated =>
      cases translated with
      | whole => exact List.forall_mem_singleton.mpr (own _ rfl)
      | cut _ _ _ limited =>
          rw [unlimited] at limited
          cases limited
      | contextual =>
          refine List.forall_mem_append.mpr ⟨?_, List.forall_mem_singleton.mpr (own _ rfl)⟩
          split
          · exact List.forall_mem_singleton.mpr nofun
          · simp

end Names

end Compilation
end GlyphLayout
