import GlyphLayout.Proofs.Source.WellFormed
import Mathlib.Data.List.TakeWhile

/-!
# Comments, tags and code points that are read back

A comment without escapes, a tag filled up with spaces and a list of code points are read as
what was written.
-/

namespace GlyphLayout
namespace Source

/-! ## Comments -/

/-- An escaped text that has no escapes of its own is read as it was. -/
theorem unescape_escapeNewlines {text : List Char} (clean : HasNoEscape text) :
    unescapeNewlines (escapeNewlines text) = text := by
  induction text with
  | nil => rfl
  | cons c cs ih =>
      have later : HasNoEscape cs :=
        fun inside => clean (inside.trans (List.suffix_cons c cs).isInfix)
      rw [escapeNewlines]
      split
      · rename_i same
        rw [unescapeNewlines, ih later, same]
      · rw [unescapeNewlines, ih later]
        -- A backslash is not followed by the letter, since the text has no escapes.
        rintro others rfl same
        cases cs with
        | nil => cases same
        | cons d ds =>
            rw [escapeNewlines] at same
            split at same
            · cases same
            · obtain ⟨rfl, -⟩ := List.cons.inj same
              exact clean (List.prefix_append ['\\', 'n'] ds).isInfix

/-! ## Tags -/

/-- A character of a tag is encoded by one byte. -/
theorem byteLength_eq_length
    {text : List Char}
    (ascii : ∀ c ∈ text, isTagChar c = true ∨ c = ' ') :
    Tag.byteLength text = text.length := by
  induction text with
  | nil => rfl
  | cons c cs ih =>
      obtain ⟨first, later⟩ := List.forall_mem_cons.mp ascii
      have single : c.utf8Size = 1 := by
        rw [Char.utf8Size_eq_one_iff]
        rcases first with inTag | rfl
        · simp only [isTagChar, Bool.and_eq_true, decide_eq_true_eq] at inTag
          have below : c.val < 127 := inTag.2
          exact UInt32.le_of_lt below
        · decide
      rw [Tag.byteLength, ih later, single, List.length_cons, Nat.add_comm]

theorem takeWhile_tag_spaces
    {name : List Char}
    (characters : ∀ c ∈ name, isTagChar c = true)
    (count : Nat) :
    (name ++ List.replicate count ' ').takeWhile isTagChar = name := by
  rw [List.takeWhile_append_of_pos characters]
  cases count with
  | zero => rw [List.replicate_zero, List.takeWhile_nil, List.append_nil]
  | succ count =>
      rw [List.replicate_succ, List.takeWhile_cons_of_neg (by decide), List.append_nil]

theorem dropWhile_tag_spaces
    {name : List Char}
    (characters : ∀ c ∈ name, isTagChar c = true)
    (count : Nat) :
    ((name ++ List.replicate count ' ').dropWhile isTagChar).dropWhile (· == ' ') = [] := by
  rw [List.dropWhile_append_of_pos characters, List.dropWhile_eq_nil_iff]
  intro c member
  have padding := (List.dropWhile_suffix isTagChar).subset member
  simpa using List.eq_of_mem_replicate padding

/-- A tag filled up with spaces is read as the tag. -/
theorem ofString_padded (tag : Tag) : Tag.ofString tag.padded = .ok tag := by
  obtain ⟨name, ⟨filled, short⟩, characters⟩ := tag
  have bytes : Tag.byteLength (name.toList ++ List.replicate (4 - name.toList.length) ' ') = 4 := by
    rw [byteLength_eq_length]
    · simp only [List.length_append, List.length_replicate]
      omega
    · intro c member
      exact (List.mem_append.mp member).imp (characters c) List.eq_of_mem_replicate
  have front := takeWhile_tag_spaces characters (4 - name.toList.length)
  have behind := dropWhile_tag_spaces characters (4 - name.toList.length)
  have starts : name.toList ≠ [] := List.length_pos_iff.mp filled
  simp only [Tag.ofString, Tag.padded, String.toList_append, String.toList_ofList, Tag.ofChars]
  rw [dif_neg (by omega), dif_pos (by rwa [front])]
  split
  · simp [front]
  · rename_i more
    rw [behind] at more
    cases more

/-! ## Code points -/

theorem pieces_of_clean {separator : Char} {text : List Char} (clean : separator ∉ text) :
    Text.pieces separator text = [text] := by
  induction text with
  | nil => rfl
  | cons c cs ih =>
      rw [List.mem_cons, not_or] at clean
      simp [Text.pieces, ih clean.2, Ne.symm clean.1]

/-- The pieces of two texts with a separator between them. -/
theorem pieces_append (separator : Char) (front rest : List Char) :
    Text.pieces separator (front ++ separator :: rest) =
      Text.pieces separator front ++ Text.pieces separator rest := by
  induction front with
  | nil =>
      obtain ⟨first, others, same⟩ := List.exists_cons_of_ne_nil (Text.pieces_ne_nil separator rest)
      simp [Text.pieces, same]
  | cons c cs ih =>
      obtain ⟨first, others, same⟩ := List.exists_cons_of_ne_nil (Text.pieces_ne_nil separator cs)
      rw [same] at ih
      simp only [List.cons_append, Text.pieces, ih, same]
      split <;> rfl

theorem pieces_append_separator
    {separator : Char} {piece : List Char}
    (clean : separator ∉ piece)
    (rest : List Char) :
    Text.pieces separator (piece ++ separator :: rest) = piece :: Text.pieces separator rest := by
  rw [pieces_append, pieces_of_clean clean, List.singleton_append]

/-- Pieces without separators are found again in the text that has separators between them. -/
theorem pieces_intercalate
    {separator : Char} {parts : List (List Char)}
    (filled : parts ≠ [])
    (clean : ∀ part ∈ parts, separator ∉ part) :
    Text.pieces separator ([separator].intercalate parts) = parts := by
  induction parts with
  | nil => exact absurd rfl filled
  | cons part parts ih =>
      obtain ⟨first, later⟩ := List.forall_mem_cons.mp clean
      cases parts with
      | nil => simpa [List.intercalate] using pieces_of_clean first
      | cons next parts =>
          rw [List.intercalate_cons_cons, List.append_assoc, List.singleton_append,
            pieces_append_separator first, ih (by simp) later]

theorem trim_of_clean {text : List Char} (clean : ∀ c ∈ text, Text.isWhite c = false) :
    Text.trim text = text := by
  have stays {text : List Char} (clean : ∀ c ∈ text, Text.isWhite c = false) :
      text.dropWhile Text.isWhite = text := by
    cases text with
    | nil => rfl
    | cons c cs => exact List.dropWhile_cons_of_neg (by simp [clean])
  rw [Text.trim, stays clean, stays (by simpa using clean), List.reverse_reverse]

theorem codePoint?_codePointText (value : UInt32) :
    codePoint? (codePointText value) = some value := by
  have digits := Text.forall_mem_upperHex (fun c => Text.isWhite c = false ∧ c ≠ 'U')
    (by decide) value.toNat
  have noMark :
      dropCodePointMarks (upperHex value.toNat).toList = (upperHex value.toNat).toList := by
    unfold dropCodePointMarks
    split
    · rename_i same
      exact absurd rfl (digits 'U' (by simp [same])).2
    · rfl
  have clean : ∀ c ∈ codePointText value, Text.isWhite c = false := by
    simp only [codePointText, List.forall_mem_cons]
    exact ⟨by decide, by decide, fun c member => (digits c member).1⟩
  rw [codePoint?, trim_of_clean clean, codePointText, dropCodePointMarks, noMark,
    Text.uint32?_upperHex]

/-- A list of code points is read as the code points. -/
theorem codePoints_codePointsText {values : List UInt32} (filled : values ≠ []) :
    codePoints (codePointsText values) = .ok values := by
  have clean : ∀ part ∈ values.map codePointText, ',' ∉ part := by
    intro part member comma
    obtain ⟨value, -, rfl⟩ := List.mem_map.mp member
    have digits := Text.forall_mem_upperHex (· ≠ ',') (by decide) value.toNat
    simp only [codePointText, List.mem_cons] at comma
    rcases comma with same | same | inside
    · exact absurd same (by decide)
    · exact absurd same (by decide)
    · exact digits ',' inside rfl
  rw [codePoints, codePointsText, String.toList_ofList,
    pieces_intercalate (by simpa using filled) clean]
  clear filled clean
  induction values with
  | nil => rfl
  | cons value values ih =>
      rw [List.map_cons, List.mapM_cons, ih, codePoint?_codePointText]
      rfl

end Source
end GlyphLayout
