import GlyphLayout.Proofs.ByteOrder
import GlyphLayout.Proofs.Source.Lexing
import Mathlib.Data.List.DropRight

/-!
# Reading a text byte by byte

A cursor goes through the bytes of a text and cuts out a token with each call.  It keeps the
number of the line and the offset at which the line starts, both of 32 bits as far as a token
shows them, and takes a missing byte for zero.  Between two calls it stands between two
characters, and what it knows of its line is right.
-/

namespace GlyphLayout
namespace Source

open Text (isSeparator)

/-! ## Bytes -/

/-- The byte at an offset of a text, and zero behind the last one. -/
def byteAt (text : String) (offset : Nat) : UInt8 :=
  (Text.bytes text)[offset]?.getD 0

/-- The text between two offsets. -/
def slice (text : String) (start stop : Nat) : String :=
  String.Pos.Raw.extract text ⟨start⟩ ⟨stop⟩

/-- The byte is a space, or one of the five from tab to carriage return. -/
def isSeparatorByte (byte : UInt8) : Bool :=
  byte == 0x20 || (0x9 ≤ byte && byte ≤ 0xD)

/-- The byte ends no word. -/
def isWordByte (byte : UInt8) : Bool :=
  !isSeparatorByte byte && byte != 0x22

/-- The byte closes no string. -/
def isInnerByte (byte : UInt8) : Bool :=
  byte != 0x22

/-! ## The cursor -/

/-- What a call cuts out of a text. -/
inductive TokenKind where
  | word
  | quoted
  | unclosed
  /-- The end of the text. -/
  | finish
deriving Repr, DecidableEq

/-- A line and a column, each of 32 bits. -/
structure Mark where
  line : UInt32
  column : UInt32
deriving Repr, DecidableEq

/-- The offsets between which the text of a token stands, without quotation marks. -/
structure ByteToken where
  kind : TokenKind
  start : Nat
  stop : Nat
  /-- Where the token starts, with its quotation mark. -/
  mark : Mark
deriving Repr, DecidableEq

/-- A place between two bytes of a text. -/
structure Cursor where
  offset : Nat
  line : UInt32
  /-- The offset of the first byte of the line. -/
  lineStart : Nat
deriving Repr, DecidableEq

namespace Cursor

/-- In front of a text. -/
def start : Cursor := ⟨0, 1, 0⟩

/-- Goes behind the next byte. -/
def bump (text : String) (cursor : Cursor) : Cursor :=
  if byteAt text cursor.offset = 0xA then
    ⟨cursor.offset + 1, cursor.line + 1, cursor.offset + 1⟩
  else { cursor with offset := cursor.offset + 1 }

@[simp] theorem offset_bump (text : String) (cursor : Cursor) :
    (cursor.bump text).offset = cursor.offset + 1 := by
  unfold bump
  split <;> rfl

/-- Goes on up to the next byte that fails the test, or to the end of the text. -/
def skip (text : String) (test : UInt8 → Bool) (cursor : Cursor) : Cursor :=
  if cursor.offset < text.utf8ByteSize ∧ test (byteAt text cursor.offset) then
    (cursor.bump text).skip text test
  else cursor
termination_by text.utf8ByteSize - cursor.offset
decreasing_by
  rw [offset_bump]
  omega

/-- The line, and one more than the number of characters in front of the cursor in it. -/
def mark (text : String) (cursor : Cursor) : Mark :=
  ⟨cursor.line, .ofNat ((slice text cursor.lineStart cursor.offset).length + 1)⟩

/-- Cuts out the string whose quotation mark comes next, and gives the cursor behind it. -/
def cutString (text : String) (first : Cursor) : ByteToken × Cursor :=
  let inner := first.bump text
  let last := inner.skip text isInnerByte
  if last.offset < text.utf8ByteSize then
    (⟨.quoted, inner.offset, last.offset, first.mark text⟩, last.bump text)
  else (⟨.unclosed, inner.offset, last.offset, first.mark text⟩, last)

/-- Cuts out the word that comes next, and gives the cursor behind it. -/
def cutWord (text : String) (first : Cursor) : ByteToken × Cursor :=
  let last := first.skip text isWordByte
  (⟨.word, first.offset, last.offset, first.mark text⟩, last)

/-- Cuts out the next token behind separators, and gives the cursor behind it. -/
def next (text : String) (cursor : Cursor) : ByteToken × Cursor :=
  let first := cursor.skip text isSeparatorByte
  -- A byte that is zero may be missing, or belong to a word.
  if byteAt text first.offset = 0 ∧ text.utf8ByteSize ≤ first.offset then
    (⟨.finish, first.offset, first.offset, first.mark text⟩, first)
  else if byteAt text first.offset = 0x22 then first.cutString text
  else first.cutWord text

end Cursor

/-! ## Characters and their bytes -/

open String (utf8Len)

/-- All bytes of a character pass the test if the character passes its own, and else none does. -/
def Decides (test : UInt8 → Bool) (passes : Char → Bool) : Prop :=
  ∀ c, ∀ byte ∈ String.utf8EncodeChar c, test byte = passes c

/-- An ASCII character is its only byte, and the bytes of any other are beyond ASCII. -/
theorem utf8EncodeChar_cases (c : Char) :
    c.toNat < 0x80 ∧ String.utf8EncodeChar c = [c.toUInt8] ∨
      0x80 ≤ c.toNat ∧ ∀ byte ∈ String.utf8EncodeChar c, 0x80 ≤ byte := by
  have valid : c.val.toNat < 55296
      ∨ 57343 < c.val.toNat ∧ c.val.toNat < 1114112 := c.valid
  by_cases ascii : c.toNat < 0x80
  · left
    refine ⟨ascii, String.utf8EncodeChar_eq_singleton ?_⟩
    rw [Char.utf8Size_eq_one_iff, UInt32.le_iff_toNat_le]
    exact Nat.le_of_lt_succ ascii
  · right
    have beyond : ¬ c.val.toNat ≤ 127 := by
      have same : c.toNat = c.val.toNat := rfl
      omega
    refine ⟨Nat.le_of_not_lt ascii, fun byte member => ?_⟩
    unfold String.utf8EncodeChar at member
    dsimp only at member
    rw [if_neg beyond] at member
    rw [UInt8.le_iff_toNat_le]
    split_ifs at member <;>
      simp only [List.mem_cons, List.not_mem_nil, or_false] at member <;>
      rcases member with rfl | rfl | rfl | rfl <;>
      simp [UInt8.toNat_ofNat'] <;> omega

theorem toNat_toUInt8 {c : Char} (ascii : c.toNat < 0x80) : c.toUInt8.toNat = c.toNat := by
  have below : c.val.toNat < 256 := Nat.lt_trans ascii (by decide)
  exact Nat.mod_eq_of_lt below

/-- A test of the code is the same for a character and for its bytes if all high codes are alike. -/
theorem decides_of_code
    {test : UInt8 → Bool} {passes : Char → Bool}
    (code : Nat → Bool) (high : Bool)
    (byByte : ∀ byte, test byte = code byte.toNat)
    (byChar : ∀ c, passes c = code c.toNat)
    (beyond : ∀ value, 0x80 ≤ value → code value = high) :
    Decides test passes := by
  intro c byte member
  rw [byByte, byChar]
  rcases utf8EncodeChar_cases c with ⟨ascii, single⟩ | ⟨above, bytes⟩
  · rw [single, List.mem_singleton] at member
    rw [member, toNat_toUInt8 ascii]
  · rw [beyond _ above, beyond _ (UInt8.le_iff_toNat_le.mp (bytes byte member))]

theorem beq_char_eq (c d : Char) : (c == d) = (c.toNat == d.toNat) := by
  rw [Bool.eq_iff_iff, beq_iff_eq, beq_iff_eq, Char.toNat_inj]

theorem beq_byte_eq (byte other : UInt8) : (byte == other) = (byte.toNat == other.toNat) := by
  rw [Bool.eq_iff_iff, beq_iff_eq, beq_iff_eq, UInt8.toNat_inj]

theorem decides_separator : Decides isSeparatorByte isSeparator := by
  apply decides_of_code (fun value => value == 0x20 || (0x9 ≤ value && value ≤ 0xD)) false
  · intro byte
    simp only [isSeparatorByte, beq_byte_eq, UInt8.le_iff_toNat_le]
    rfl
  · intro c
    rw [isSeparator, beq_char_eq]
    rfl
  · intro value high
    simp
    omega

theorem decides_inner : Decides isInnerByte (· != '"') := by
  apply decides_of_code (fun value => !(value == 0x22)) true
  · intro byte
    simp only [isInnerByte, bne, beq_byte_eq]
    rfl
  · intro c
    simp only [bne, beq_char_eq]
    rfl
  · intro value high
    simp
    omega

theorem decides_word : Decides isWordByte isWordChar := by
  intro c byte member
  rw [isWordByte, isWordChar, decides_separator c byte member]
  exact congrArg (!isSeparator c && ·) (decides_inner c byte member)

theorem newline_not_mem_utf8EncodeChar {c : Char} (other : c ≠ '\n') :
    0xA ∉ String.utf8EncodeChar c := by
  intro member
  rcases utf8EncodeChar_cases c with ⟨ascii, single⟩ | ⟨-, bytes⟩
  · rw [single, List.mem_singleton] at member
    have same := congrArg UInt8.toNat member
    rw [toNat_toUInt8 ascii] at same
    exact other (Char.toNat_inj.mp same.symm)
  · exact absurd (bytes _ member) (by decide)

theorem length_flatMap_utf8EncodeChar (cs : List Char) :
    (cs.flatMap String.utf8EncodeChar).length = utf8Len cs := by
  induction cs with
  | nil => rfl
  | cons c cs ih =>
      rw [List.flatMap_cons, List.length_append, ih, String.length_utf8EncodeChar,
        String.utf8Len_cons, Nat.add_comm]

theorem length_bytes (text : String) : (Text.bytes text).length = text.utf8ByteSize := by
  rw [Text.bytes_eq_flatMap, length_flatMap_utf8EncodeChar, ← String.utf8ByteSize_ofList,
    String.ofList_toList]

/-- Between the offsets of two characters stands the text between these characters. -/
theorem slice_of_split
    {text : String} {front middle rest : List Char}
    (split : text.toList = front ++ (middle ++ rest)) :
    slice text (utf8Len front) (utf8Len front + utf8Len middle) = String.ofList middle := by
  have whole : text = String.ofList (front ++ middle ++ rest) := by
    rw [List.append_assoc, ← split, String.ofList_toList]
  rw [slice, whole]
  exact String.extract_of_valid ..

/-- The offset behind the first characters of a text lies between two characters. -/
theorem isValid_of_front
    {text : String} {front : List Char}
    (inside : front <+: text.toList) :
    (⟨utf8Len front⟩ : String.Pos.Raw).IsValid text := by
  obtain ⟨rest, split⟩ := inside
  refine String.Pos.Raw.isValid_iff_exists_append.mpr
    ⟨String.ofList front, String.ofList rest, ?_, ?_⟩
  · rw [← String.ofList_append, split, String.ofList_toList]
  · exact (String.rawEndPos_ofList front).symm

/-! ## Places between characters -/

/-- The place as a mark, which holds no more than 32 bits of the line and of the column. -/
def Location.mark (location : Location) : Mark :=
  ⟨.ofNat location.line, .ofNat location.column⟩

/-- The character belongs to the line that it stands in, and does not end it. -/
def isInLine (c : Char) : Bool :=
  c != '\n'

/-- Behind a text the line is counted by its line feeds, and the column from the last of them. -/
theorem after_start (front : List Char) :
    Location.start.after front =
      ⟨1 + front.count '\n', 1 + (front.rtakeWhile isInLine).length⟩ := by
  induction front using List.reverseRecOn with
  | nil => rfl
  | append_singleton front c ih =>
      rw [Location.after_append, ih, Location.after, List.foldl_cons, List.foldl_nil, Location.next]
      by_cases ends : c = '\n'
      · subst ends
        rw [if_pos rfl, List.rtakeWhile_concat_neg _ _ _ (by decide), List.count_append,
          List.count_singleton_self, List.length_nil, Nat.add_assoc]
      · rw [if_neg ends, List.rtakeWhile_concat_pos _ _ _ (by simpa [isInLine] using ends),
          List.count_append, List.count_singleton, List.length_append, List.length_singleton,
          Nat.add_assoc]
        simp [ends]

namespace Cursor

/-- The cursor stands behind the first characters of a text and knows their line. -/
structure At (text : String) (front rest : List Char) (cursor : Cursor) : Prop where
  split : text.toList = front ++ rest
  offset : cursor.offset = utf8Len front
  line : cursor.line = .ofNat (1 + front.count '\n')
  lineStart : cursor.lineStart = utf8Len (front.rdropWhile isInLine)

theorem at_start (text : String) : At text [] text.toList start :=
  ⟨rfl, rfl, rfl, rfl⟩

variable {text : String} {front rest : List Char} {cursor : Cursor}

theorem At.drop_bytes (here : At text front rest cursor) :
    (Text.bytes text).drop cursor.offset = rest.flatMap String.utf8EncodeChar := by
  rw [Text.bytes_eq_flatMap, here.split, List.flatMap_append, here.offset,
    ← length_flatMap_utf8EncodeChar, List.drop_left]

/-- The mark at a place between characters is that of the characters in front of it. -/
theorem At.mark_eq (here : At text front rest cursor) :
    cursor.mark text = (Location.start.after front).mark := by
  have split : text.toList =
      front.rdropWhile isInLine ++ (front.rtakeWhile isInLine ++ rest) := by
    rw [← List.append_assoc, List.rdropWhile_append_rtakeWhile, here.split]
  have width : utf8Len front =
      utf8Len (front.rdropWhile isInLine) + utf8Len (front.rtakeWhile isInLine) := by
    rw [← String.utf8Len_append, List.rdropWhile_append_rtakeWhile]
  have inLine : slice text cursor.lineStart cursor.offset =
      String.ofList (front.rtakeWhile isInLine) := by
    rw [here.lineStart, here.offset, width, slice_of_split split]
  rw [mark, inLine, here.line, after_start, String.length_ofList, Nat.add_comm _ 1]
  rfl

/-! ## Over one character and over many -/

/-- The byte that comes next, if there is one. -/
theorem byteAt_of_drop
    {byte : UInt8} {bytes : List UInt8}
    (here : (Text.bytes text).drop cursor.offset = byte :: bytes) :
    byteAt text cursor.offset = byte ∧ cursor.offset < text.utf8ByteSize ∧
      (Text.bytes text).drop (cursor.offset + 1) = bytes := by
  have found : (Text.bytes text)[cursor.offset]? = some byte := by
    rw [← List.head?_drop, here, List.head?_cons]
  refine ⟨by rw [byteAt, found, Option.getD_some], ?_, ?_⟩
  · rw [← length_bytes]
    exact (List.getElem?_eq_some_iff.mp found).1
  · rw [← List.drop_drop, here, List.drop_one, List.tail_cons]

/-- Bytes that pass the test and end no line are skipped, and nothing but the offset changes. -/
theorem skip_of_bytes
    {test : UInt8 → Bool} {passed later : List UInt8}
    (here : (Text.bytes text).drop cursor.offset = passed ++ later)
    (passes : ∀ byte ∈ passed, test byte = true)
    (inLine : 0xA ∉ passed) :
    cursor.skip text test =
      ({ cursor with offset := cursor.offset + passed.length } : Cursor).skip text test := by
  induction passed generalizing cursor with
  | nil => rfl
  | cons byte bytes ih =>
      obtain ⟨first, others⟩ := List.forall_mem_cons.mp passes
      rw [List.mem_cons, not_or] at inLine
      obtain ⟨same, before, behind⟩ := byteAt_of_drop here
      have moved : cursor.bump text = { cursor with offset := cursor.offset + 1 } := by
        rw [bump, same, if_neg (Ne.symm inLine.1)]
      rw [skip, same, if_pos ⟨before, first⟩, moved, ih behind others inLine.2,
        List.length_cons, Nat.add_comm bytes.length, ← Nat.add_assoc]

/-- The cursor behind a character that is a single byte. -/
theorem At.bump_ascii
    {c : Char}
    (here : At text front (c :: rest) cursor)
    (ascii : c.toNat < 0x80) :
    byteAt text cursor.offset = c.toUInt8 ∧ cursor.offset < text.utf8ByteSize ∧
      At text (front ++ [c]) rest (cursor.bump text) := by
  have single : String.utf8EncodeChar c = [c.toUInt8] := by
    rcases utf8EncodeChar_cases c with ⟨-, single⟩ | ⟨above, -⟩
    · exact single
    · omega
  have width : c.utf8Size = 1 := by
    rw [← String.length_utf8EncodeChar, single, List.length_singleton]
  have bytes := here.drop_bytes
  rw [List.flatMap_cons, single, List.singleton_append] at bytes
  obtain ⟨same, before, -⟩ := byteAt_of_drop bytes
  have split : text.toList = front ++ [c] ++ rest := by
    rw [here.split, List.append_assoc, List.singleton_append]
  have behind : cursor.offset + 1 = utf8Len (front ++ [c]) := by
    rw [here.offset, String.utf8Len_append, String.utf8Len_cons, width, String.utf8Len_nil]
  refine ⟨same, before, ?_⟩
  rw [bump, same]
  by_cases ends : c = '\n'
  · subst ends
    rw [if_pos (by decide)]
    refine ⟨split, behind, ?_, ?_⟩
    · rw [here.line, List.count_append, List.count_singleton_self, ← Nat.add_assoc]
      exact (UInt32.ofNat_add ..).symm
    · rw [List.rdropWhile_concat_neg _ _ _ (by decide)]
      exact behind
  · have other : c.toUInt8 ≠ 0xA := by
      intro same
      have codes := congrArg UInt8.toNat same
      rw [toNat_toUInt8 ascii] at codes
      exact ends (Char.toNat_inj.mp codes)
    rw [if_neg other]
    refine ⟨split, behind, ?_, ?_⟩
    · rw [here.line, List.count_append, List.count_singleton]
      simp [ends]
    · rw [List.rdropWhile_concat_pos _ _ _ (by simpa [isInLine] using ends)]
      exact here.lineStart

/-- A character that passes the test is skipped with all its bytes. -/
theorem At.skip_cons
    {test : UInt8 → Bool} {passes : Char → Bool} {c : Char}
    (here : At text front (c :: rest) cursor)
    (decides : Decides test passes)
    (passing : passes c = true) :
    ∃ later, At text (front ++ [c]) rest later ∧
      cursor.skip text test = later.skip text test := by
  have each : ∀ byte ∈ String.utf8EncodeChar c, test byte = true :=
    fun byte member => (decides c byte member).trans passing
  by_cases ends : c = '\n'
  · obtain ⟨same, before, behind⟩ := here.bump_ascii (by subst ends; decide)
    refine ⟨_, behind, ?_⟩
    rw [skip, same, if_pos]
    refine ⟨before, each _ ?_⟩
    subst ends
    decide
  · have inLine := newline_not_mem_utf8EncodeChar ends
    refine ⟨{ cursor with offset := cursor.offset + (String.utf8EncodeChar c).length }, ?_, ?_⟩
    · refine ⟨?_, ?_, ?_, ?_⟩
      · rw [here.split, List.append_assoc, List.singleton_append]
      · rw [here.offset, String.utf8Len_append, String.length_utf8EncodeChar]
        simp
      · rw [here.line, List.count_append, List.count_singleton]
        simp [ends]
      · rw [List.rdropWhile_concat_pos _ _ _ (by simpa [isInLine] using ends)]
        exact here.lineStart
    · exact skip_of_bytes here.drop_bytes each inLine

/-- The cursor stays where no character comes that passes the test. -/
theorem At.skip_stop
    {test : UInt8 → Bool} {passes : Char → Bool}
    (here : At text front rest cursor)
    (decides : Decides test passes)
    (stops : ∀ c ∈ rest.head?, passes c = false) :
    cursor.skip text test = cursor := by
  rw [skip, if_neg]
  rintro ⟨before, passing⟩
  cases rest with
  | nil =>
      have bytes := congrArg List.length here.drop_bytes
      rw [List.length_drop, length_bytes, List.flatMap_nil, List.length_nil] at bytes
      omega
  | cons c cs =>
      obtain ⟨byte, bytes, encoded⟩ :=
        List.exists_cons_of_ne_nil (String.utf8EncodeChar_ne_nil (c := c))
      have first := here.drop_bytes
      rw [List.flatMap_cons, encoded, List.cons_append] at first
      have fails := decides c byte (encoded ▸ List.mem_cons_self ..)
      rw [(byteAt_of_drop first).1, fails, stops c rfl] at passing
      cases passing

/-- The characters that pass the test are skipped, and no others. -/
theorem At.skip
    {test : UInt8 → Bool} {passes : Char → Bool}
    (here : At text front rest cursor)
    (decides : Decides test passes) :
    At text (front ++ rest.takeWhile passes) (rest.dropWhile passes) (cursor.skip text test) := by
  induction rest generalizing front cursor with
  | nil =>
      rw [here.skip_stop decides (by simp), List.takeWhile_nil, List.dropWhile_nil,
        List.append_nil]
      exact here
  | cons c cs ih =>
      by_cases passing : passes c = true
      · obtain ⟨later, moved, same⟩ := here.skip_cons decides passing
        have skipped := ih moved
        rw [same, List.takeWhile_cons_of_pos passing, List.dropWhile_cons_of_pos passing]
        rwa [List.append_assoc, List.singleton_append] at skipped
      · rw [here.skip_stop decides (by simpa using passing), List.takeWhile_cons_of_neg passing,
          List.dropWhile_cons_of_neg passing, List.append_nil]
        exact here

end Cursor

end Source
end GlyphLayout
