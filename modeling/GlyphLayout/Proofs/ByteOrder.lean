import GlyphLayout.Proofs.SortedTable
import Mathlib.Data.String.Basic

/-!
# Texts in order of their bytes

Texts are compared character by character.  This is the order of their bytes: of two different
characters the lower one has the lower byte where their encodings first differ.
-/

namespace GlyphLayout
namespace Text

/-- The bytes of a text, in order. -/
def bytes (text : String) : List UInt8 :=
  text.toUTF8.data.toList

theorem bytes_inj {first second : String} : bytes first = bytes second ↔ first = second := by
  rw [bytes, bytes, Array.toList_inj, ← ByteArray.ext_iff]
  exact String.toByteArray_inj

theorem bytes_eq_flatMap (text : String) :
    bytes text = text.toList.flatMap String.utf8EncodeChar := by
  have encoded : text.toUTF8 = text.toList.utf8Encode := String.utf8Encode_toList.symm
  rw [bytes, encoded, List.utf8Encode, List.toList_data_toByteArray]

/-- A lower character has lower bytes, whatever follows. -/
theorem utf8EncodeChar_append_lt
    {first second : Char}
    (below : first < second)
    (rest others : List UInt8) :
    String.utf8EncodeChar first ++ rest < String.utf8EncodeChar second ++ others := by
  have values : first.val.toNat < second.val.toNat := below
  have valid : second.val.toNat < 55296
      ∨ 57343 < second.val.toNat ∧ second.val.toNat < 1114112 := second.valid
  have digit (value : Nat) : (value % 64 + 128) % 256 = value % 64 + 128 := by omega
  unfold String.utf8EncodeChar
  dsimp only
  -- The lengths of the two encodings, and then their bytes as numbers.
  split_ifs <;>
    simp (disch := omega) only [List.cons_append, List.nil_append, List.cons_lt_cons_iff,
      UInt8.lt_iff_toNat_lt, ← UInt8.toNat_inj, UInt8.toNat_ofNat', digit, Nat.mod_eq_of_lt] <;>
    omega

theorem flatMap_utf8EncodeChar_lt
    {first second : List Char}
    (below : first < second) :
    first.flatMap String.utf8EncodeChar < second.flatMap String.utf8EncodeChar := by
  rw [← List.lex_lt] at below
  induction below with
  | nil =>
      obtain ⟨byte, rest, encoded⟩ :=
        List.exists_cons_of_ne_nil (String.utf8EncodeChar_ne_nil (c := _))
      rw [List.flatMap_cons, encoded]
      exact List.nil_lt_cons ..
  | cons _ ih => exact List.append_left_lt ih
  | rel below => exact utf8EncodeChar_append_lt below ..

/-- Texts are in the order of their bytes. -/
theorem bytes_lt_bytes_iff {first second : String} :
    bytes first < bytes second ↔ first < second := by
  have mono {first second : String} (below : first < second) : bytes first < bytes second := by
    rw [bytes_eq_flatMap, bytes_eq_flatMap]
    exact flatMap_utf8EncodeChar_lt (String.lt_iff_toList_lt.mp below)
  refine ⟨fun bytesBelow => ?_, mono⟩
  by_contra notBelow
  by_cases above : second < first
  · exact List.lt_asymm bytesBelow (mono above)
  · have same : first = second := stringTrichotomous.trichotomous _ _ notBelow above
    exact List.lt_irrefl _ (same ▸ bytesBelow)

end Text
end GlyphLayout
