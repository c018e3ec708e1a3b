import GlyphLayout.Proofs.Outcome
import GlyphLayout.Proofs.Source.Cursor
import GlyphLayout.Proofs.Source.Spacing

/-!
# Calls up to the end of a text

A text is read by one call after the other until a call comes upon its end.  There are finitely
many calls, whatever the text; each cuts out one lexeme between two characters, and nothing but
separators is left out.
-/

namespace GlyphLayout
namespace Source

open Text (isSeparator)
open String (utf8Len)

/-! ## Tokens of lexemes -/

namespace Lexeme

/-- What a lexeme is cut out as. -/
def kind : Lexeme → TokenKind
  | word _ => .word
  | quoted _ => .quoted
  | unclosed _ => .unclosed

/-- The text of a lexeme, without quotation marks. -/
def inner : Lexeme → String
  | word text | quoted text | unclosed text => text

/-- The number of bytes in front of the text of a lexeme. -/
def markWidth : Lexeme → Nat
  | word _ => 0
  | quoted _ | unclosed _ => 1

end Lexeme

/-- The token that is cut out for a lexeme in its place. -/
def Placed.byteToken (item : Placed) : ByteToken where
  kind := item.piece.lexeme.kind
  start := utf8Len item.before + item.piece.lexeme.markWidth
  stop := utf8Len item.before + item.piece.lexeme.markWidth + utf8Len item.piece.lexeme.inner.toList
  mark := (Location.start.after item.before).mark

/-- The token at the end of a text. -/
def endToken (text : String) : ByteToken where
  kind := .finish
  start := text.utf8ByteSize
  stop := text.utf8ByteSize
  mark := (Location.start.after text.toList).mark

namespace Cursor

variable {text : String} {front rest : List Char} {cursor : Cursor}

theorem At.offset_last (here : At text front [] cursor) :
    cursor.offset = text.utf8ByteSize := by
  have whole := here.split
  rw [List.append_nil] at whole
  rw [here.offset, ← whole, ← String.utf8ByteSize_ofList, String.ofList_toList]

/-- The byte that comes next is one of the character that comes next. -/
theorem At.byteAt_mem
    {c : Char}
    (here : At text front (c :: rest) cursor) :
    byteAt text cursor.offset ∈ String.utf8EncodeChar c ∧ cursor.offset < text.utf8ByteSize := by
  obtain ⟨byte, bytes, encoded⟩ :=
    List.exists_cons_of_ne_nil (String.utf8EncodeChar_ne_nil (c := c))
  have first := here.drop_bytes
  rw [List.flatMap_cons, encoded, List.cons_append] at first
  obtain ⟨same, before, -⟩ := byteAt_of_drop first
  rw [same, encoded]
  exact ⟨List.mem_cons_self .., before⟩

/-- A call in front of nothing but separators comes upon the end of the text. -/
theorem At.next_finish
    (here : At text front rest cursor)
    (blank : ∀ c ∈ rest, isSeparator c = true) :
    (cursor.next text).1 = endToken text ∧ At text text.toList [] (cursor.next text).2 := by
  have last := here.skip decides_separator
  rw [List.takeWhile_eq_self_iff.mpr blank, List.dropWhile_eq_nil_iff.mpr blank, ← here.split]
    at last
  have behind := last.offset_last
  have none : byteAt text text.utf8ByteSize = 0 := by
    rw [byteAt, List.getElem?_eq_none (by rw [length_bytes]), Option.getD_none]
  unfold Cursor.next
  dsimp only
  rw [behind, none, if_pos ⟨rfl, Nat.le_refl _⟩, last.mark_eq]
  exact ⟨rfl, last⟩

/-- Behind a quotation mark a string is cut out up to the next one, or to the end of the text. -/
theorem At.cutString
    {blank cs later : List Char} {lexeme : Lexeme}
    (here : At text (front ++ blank) ('"' :: cs) cursor)
    (read : Lexeme.read '"' cs = (lexeme, later)) :
    (cursor.cutString text).1 = (⟨front, ⟨blank, lexeme⟩⟩ : Placed).byteToken ∧
      At text (front ++ (blank ++ lexeme.source)) later (cursor.cutString text).2 := by
  obtain ⟨-, -, inner⟩ := here.bump_ascii (by decide)
  have last := inner.skip decides_inner
  have parts := List.takeWhile_append_dropWhile (p := (· != '"')) (l := cs)
  have opened : (cursor.bump text).offset = utf8Len (front ++ blank) + 1 := by
    rw [inner.offset, String.utf8Len_append]
    rfl
  have width : utf8Len (front ++ blank ++ ['"'] ++ cs.takeWhile (· != '"')) =
      utf8Len (front ++ blank) + 1 + utf8Len (cs.takeWhile (· != '"')) := by
    rw [String.utf8Len_append, String.utf8Len_append]
    rfl
  rw [Lexeme.read, if_pos rfl] at read
  unfold Cursor.cutString
  dsimp only
  rw [here.mark_eq, opened, last.offset, width]
  cases ends : cs.dropWhile (· != '"') with
  | nil =>
      rw [ends] at read last
      rw [ends, List.append_nil] at parts
      cases read
      have notBefore := Nat.le_of_eq last.offset_last.symm
      rw [last.offset, width] at notBefore
      rw [if_neg (Nat.not_lt.mpr notBefore)]
      rw [parts] at last ⊢
      refine ⟨(ByteToken.mk.injEq ..).mpr ⟨rfl, rfl, ?_, rfl⟩, ?_⟩
      · simp only [Lexeme.inner, String.toList_ofList]
        rfl
      · simpa [Lexeme.source] using last
  | cons stop others =>
      rw [ends] at read last
      cases read
      obtain rfl : stop = '"' := by
        simpa [ends] using List.head?_dropWhile_not (· != '"') cs
      obtain ⟨-, closes, behind⟩ := last.bump_ascii (by decide)
      rw [last.offset, width] at closes
      rw [if_pos closes]
      refine ⟨(ByteToken.mk.injEq ..).mpr ⟨rfl, rfl, ?_, rfl⟩, ?_⟩
      · simp only [Lexeme.inner, String.toList_ofList]
        rfl
      · simpa [Lexeme.source] using behind

/-- A word is cut out up to the next character that stands in no word. -/
theorem At.cutWord
    {blank cs later : List Char} {c : Char} {lexeme : Lexeme}
    (here : At text (front ++ blank) (c :: cs) cursor)
    (inWord : isWordChar c = true)
    (read : Lexeme.read c cs = (lexeme, later)) :
    (cursor.cutWord text).1 = (⟨front, ⟨blank, lexeme⟩⟩ : Placed).byteToken ∧
      At text (front ++ (blank ++ lexeme.source)) later (cursor.cutWord text).2 := by
  have last := here.skip decides_word
  rw [List.takeWhile_cons_of_pos inWord, List.dropWhile_cons_of_pos inWord] at last
  rw [Lexeme.read, if_neg (quote_of_isWordChar inWord)] at read
  cases read
  unfold Cursor.cutWord
  dsimp only
  refine ⟨(ByteToken.mk.injEq ..).mpr ⟨rfl, here.offset, ?_, here.mark_eq⟩, ?_⟩
  · rw [last.offset, String.utf8Len_append]
    simp only [Lexeme.inner, String.toList_ofList]
    rfl
  · simpa [Lexeme.source] using last

/-- A call in front of a lexeme cuts it out, and leaves the cursor behind it. -/
theorem At.next_lexeme
    {c : Char} {cs later : List Char} {lexeme : Lexeme}
    (here : At text front rest cursor)
    (found : rest.dropWhile isSeparator = c :: cs)
    (read : Lexeme.read c cs = (lexeme, later)) :
    (cursor.next text).1 = (⟨front, ⟨rest.takeWhile isSeparator, lexeme⟩⟩ : Placed).byteToken ∧
      At text (front ++ (rest.takeWhile isSeparator ++ lexeme.source)) later
        (cursor.next text).2 := by
  have first := here.skip decides_separator
  rw [found] at first
  have separator : isSeparator c = false := by
    simpa [found] using List.head?_dropWhile_not isSeparator rest
  obtain ⟨member, before⟩ := first.byteAt_mem
  unfold Cursor.next
  dsimp only
  rw [if_neg fun last => Nat.not_lt.mpr last.2 before]
  by_cases quote : c = '"'
  · subst quote
    have single : String.utf8EncodeChar '"' = [0x22] := by decide
    rw [single, List.mem_singleton] at member
    rw [if_pos member]
    exact first.cutString read
  · have inWord : isWordChar c = true := by simp [isWordChar, separator, quote]
    have other : byteAt text (cursor.skip text isSeparatorByte).offset ≠ 0x22 := by
      have passes := (decides_inner c _ member).trans (bne_iff_ne.mpr quote)
      simpa [isInnerByte] using passes
    rw [if_neg other]
    exact first.cutWord inWord read

end Cursor

/-! ## Calls -/

/-- One call: where the cursor stands before and after it, and what it cuts out. -/
structure Call where
  before : Cursor
  token : ByteToken
  after : Cursor
deriving Repr, DecidableEq

/-- The call that is made at a cursor. -/
def Cursor.call (text : String) (cursor : Cursor) : Call :=
  ⟨cursor, (cursor.next text).1, (cursor.next text).2⟩

/-- The calls that cut something out, one behind the other, and the one that finds the end. -/
inductive Calls (text : String) : Cursor → List Call → Call → Prop
  | finish {cursor : Cursor} (ends : (cursor.call text).token.kind = .finish) :
      Calls text cursor [] (cursor.call text)
  | next {cursor : Cursor} {calls : List Call} {last : Call}
      (goesOn : (cursor.call text).token.kind ≠ .finish)
      (others : Calls text (cursor.call text).after calls last) :
      Calls text cursor (cursor.call text :: calls) last

/-- No other calls are made. -/
theorem Calls.unique
    {text : String} {cursor : Cursor} {calls others : List Call} {last final : Call}
    (first : Calls text cursor calls last)
    (second : Calls text cursor others final) :
    others = calls ∧ final = last := by
  induction first generalizing others final with
  | finish ends =>
      cases second with
      | finish => exact ⟨rfl, rfl⟩
      | next goesOn => exact absurd ends goesOn
  | next goesOn _ ih =>
      cases second with
      | finish ends => exact absurd ends goesOn
      | next _ rest =>
          obtain ⟨rfl, rfl⟩ := ih rest
          exact ⟨rfl, rfl⟩

namespace Call

/-- The offset of the first byte of the token, which may be a quotation mark. -/
def first (call : Call) : Nat :=
  match call.token.kind with
  | .word | .finish => call.token.start
  | .quoted | .unclosed => call.token.start - 1

/-- What is left out in front of the token. -/
def skipped (text : String) (call : Call) : List Char :=
  (slice text call.before.offset call.first).toList

/-- The token as it stands in the text, with its quotation marks. -/
def raw (text : String) (call : Call) : List Char :=
  (slice text call.first call.after.offset).toList

/-- The lexeme that is cut out, if it is not the end of the text. -/
def lexeme? (text : String) (call : Call) : Option Lexeme :=
  let inner := slice text call.token.start call.token.stop
  match call.token.kind with
  | .word => some (.word inner)
  | .quoted => some (.quoted inner)
  | .unclosed => some (.unclosed inner)
  | .finish => none

/-- All offsets that a call comes upon. -/
def offsets (call : Call) : List Nat :=
  [call.before.offset, call.first, call.token.start, call.token.stop, call.after.offset]

/-- The call cuts out the given lexeme in its place. -/
structure Reads (text : String) (call : Call) (item : Placed) : Prop where
  before : call.before.offset = utf8Len item.front
  token : call.token = item.byteToken
  after : call.after.offset = utf8Len item.through
  inside : item.through <+: text.toList

/-- The call finds the end of the text behind the given separators. -/
structure Finishes (text : String) (call : Call) (front tail : List Char) : Prop where
  before : call.before.offset = utf8Len front
  token : call.token = endToken text
  after : call.after.offset = text.utf8ByteSize
  split : text.toList = front ++ tail

end Call

namespace Cursor

theorem kind_byteToken_ne_finish (item : Placed) : item.byteToken.kind ≠ .finish := by
  unfold Placed.byteToken
  cases item.piece.lexeme <;> simp [Lexeme.kind]

/-- In front of a spaced text there are as many calls as lexemes, and one that finds the end. -/
theorem At.exists_calls
    {text : String} {front : List Char} {spacing : Spacing} {cursor : Cursor}
    (formed : spacing.WellFormed)
    (here : At text front spacing.source cursor) :
    ∃ calls last, Calls text cursor calls last ∧
      List.Forall₂ (Call.Reads text) calls (placed front spacing.pieces) ∧
      last.Finishes text (front ++ spacing.pieces.flatMap Spaced.source) spacing.tail := by
  obtain ⟨pieces, tail⟩ := spacing
  -- The induction is on the lexemes that are left, with the cursor in front of them.
  induction pieces generalizing front cursor with
  | nil =>
      obtain ⟨token, behind⟩ := here.next_finish formed.tail
      have ends : (cursor.call text).token.kind = .finish := by
        rw [call, token]
        rfl
      have split := here.split
      refine ⟨[], _, .finish ends, .nil, ?_, token, behind.offset_last, ?_⟩
      · rw [List.flatMap_nil, List.append_nil]
        exact here.offset
      · rw [List.flatMap_nil, List.append_nil]
        exact split
  | cons piece pieces ih =>
      obtain ⟨c, cs, blank, found, read⟩ := formed.exists_read
      obtain ⟨token, behind⟩ := here.next_lexeme found read
      rw [blank] at token behind
      obtain ⟨-, -, -, later⟩ := Spacing.wellFormed_cons_iff.mp formed
      obtain ⟨calls, last, others, rows, finishes⟩ := ih later behind
      have goesOn : (cursor.call text).token.kind ≠ .finish := by
        rw [call, token]
        exact kind_byteToken_ne_finish _
      refine ⟨_, last, .next goesOn others, .cons ⟨here.offset, token, behind.offset, ?_⟩ rows, ?_⟩
      · exact ⟨_, behind.split.symm⟩
      · rw [List.flatMap_cons, ← List.append_assoc]
        exact finishes

end Cursor

/-- The calls on a text go through the lexemes of a spacing of it. -/
theorem exists_calls (text : String) :
    ∃ spacing calls last, Spacing.WellFormed spacing ∧ spacing.source = text.toList ∧
      Calls text .start calls last ∧
      List.Forall₂ (Call.Reads text) calls (placed [] spacing.pieces) ∧
      last.Finishes text (spacing.pieces.flatMap Spaced.source) spacing.tail := by
  obtain ⟨spacing, formed, same⟩ := Spacing.exists_wellFormed text.toList
  have here := Cursor.at_start text
  rw [← same] at here
  obtain ⟨calls, last, made, rows, finishes⟩ := here.exists_calls formed
  exact ⟨spacing, calls, last, formed, same, made, rows, finishes⟩

/-! ## What a call has read -/

/-- The text of a lexeme stands behind its quotation mark, if it has one. -/
theorem Lexeme.exists_source_eq (lexeme : Lexeme) :
    ∃ opening closing, lexeme.source = opening ++ (lexeme.inner.toList ++ closing) ∧
      utf8Len opening = lexeme.markWidth := by
  cases lexeme with
  | word text => exact ⟨[], [], by simp [source, inner], rfl⟩
  | quoted text => exact ⟨['"'], ['"'], rfl, rfl⟩
  | unclosed text => exact ⟨['"'], [], by simp [source, inner], rfl⟩

namespace Call
namespace Reads

variable {text : String} {call : Call} {item : Placed}

theorem first_eq (reads : call.Reads text item) : call.first = utf8Len item.before := by
  rw [first, reads.token, Placed.byteToken]
  cases item.piece.lexeme <;> simp [Lexeme.kind, Lexeme.markWidth]

theorem skipped_eq (reads : call.Reads text item) : call.skipped text = item.piece.blank := by
  obtain ⟨rest, split⟩ := reads.inside
  have parts : text.toList =
      item.front ++ (item.piece.blank ++ (item.piece.lexeme.source ++ rest)) := by
    rw [← split, Placed.through, Spaced.source, List.append_assoc, List.append_assoc]
  rw [skipped, reads.before, reads.first_eq, Placed.before, String.utf8Len_append,
    slice_of_split parts, String.toList_ofList]

theorem raw_eq (reads : call.Reads text item) : call.raw text = item.piece.lexeme.source := by
  obtain ⟨rest, split⟩ := reads.inside
  have parts : text.toList = item.before ++ (item.piece.lexeme.source ++ rest) := by
    rw [← split, item.through_eq, List.append_assoc]
  have width : utf8Len item.through = utf8Len item.before + utf8Len item.piece.lexeme.source := by
    rw [← String.utf8Len_append, item.through_eq]
  rw [raw, reads.first_eq, reads.after, width, slice_of_split parts, String.toList_ofList]

theorem lexeme?_eq (reads : call.Reads text item) :
    call.lexeme? text = some item.piece.lexeme := by
  obtain ⟨rest, split⟩ := reads.inside
  obtain ⟨opening, closing, source, width⟩ := item.piece.lexeme.exists_source_eq
  have parts : text.toList =
      (item.before ++ opening) ++ (item.piece.lexeme.inner.toList ++ (closing ++ rest)) := by
    rw [← split, item.through_eq, source]
    simp only [List.append_assoc]
  have found := slice_of_split parts
  rw [String.utf8Len_append, width, String.ofList_toList] at found
  rw [lexeme?, reads.token]
  simp only [Placed.byteToken, found]
  cases item.piece.lexeme <;> rfl

/-- A call comes upon no offset inside a character. -/
theorem isValid (reads : call.Reads text item) :
    ∀ offset ∈ call.offsets, (⟨offset⟩ : String.Pos.Raw).IsValid text := by
  obtain ⟨rest, split⟩ := reads.inside
  obtain ⟨opening, closing, source, width⟩ := item.piece.lexeme.exists_source_eq
  have parts : item.front ++ item.piece.blank ++ opening ++ item.piece.lexeme.inner.toList
      ++ closing ++ rest = text.toList := by
    rw [← split, Placed.through, Spaced.source, source]
    simp only [List.append_assoc]
  have start : call.token.start = utf8Len (item.before ++ opening) := by
    rw [reads.token, String.utf8Len_append, width]
    rfl
  have stop : call.token.stop =
      utf8Len (item.before ++ opening ++ item.piece.lexeme.inner.toList) := by
    rw [reads.token, String.utf8Len_append, String.utf8Len_append, width]
    rfl
  simp only [offsets, List.forall_mem_cons, reads.before, reads.first_eq, start, stop,
    reads.after, List.not_mem_nil, false_imp_iff, implies_true, and_true]
  refine ⟨isValid_of_front ?_, isValid_of_front ?_, isValid_of_front ?_, isValid_of_front ?_,
    isValid_of_front reads.inside⟩
  all_goals
    rw [← parts]
    simp only [Placed.before, List.append_assoc, List.prefix_append, List.prefix_append_right_inj]

/-- A call that cuts a lexeme out moves the cursor. -/
theorem before_lt_after
    (reads : call.Reads text item)
    (readable : item.piece.lexeme.Readable) :
    call.before.offset < call.after.offset := by
  have filled := Spacing.source_ne_nil _ readable
  have width : utf8Len item.piece.lexeme.source ≠ 0 :=
    fun none => filled (String.utf8Len_eq_zero.mp none)
  rw [reads.before, reads.after, Placed.through, Spaced.source, String.utf8Len_append,
    String.utf8Len_append]
  omega

end Reads

namespace Finishes

variable {text : String} {call : Call} {front tail : List Char}

theorem skipped_eq (finishes : call.Finishes text front tail) : call.skipped text = tail := by
  have split := finishes.split
  rw [← List.append_nil tail] at split
  have width : text.utf8ByteSize = utf8Len front + utf8Len tail := by
    rw [← String.utf8Len_append, ← finishes.split, ← String.utf8ByteSize_ofList,
      String.ofList_toList]
  have first : call.first = text.utf8ByteSize := by
    rw [Call.first, finishes.token]
    rfl
  rw [skipped, finishes.before, first, width, slice_of_split split, String.toList_ofList]

theorem isValid (finishes : call.Finishes text front tail) :
    ∀ offset ∈ call.offsets, (⟨offset⟩ : String.Pos.Raw).IsValid text := by
  have size : text.utf8ByteSize = utf8Len text.toList := by
    rw [← String.utf8ByteSize_ofList, String.ofList_toList]
  have last : (⟨text.utf8ByteSize⟩ : String.Pos.Raw).IsValid text := by
    rw [size]
    exact isValid_of_front (List.prefix_refl _)
  simp only [offsets, List.forall_mem_cons, finishes.before, first, finishes.token,
    finishes.after, endToken, List.not_mem_nil, false_imp_iff, implies_true, and_true, last]
  exact isValid_of_front ⟨tail, finishes.split.symm⟩

end Finishes
end Call

/-! ## Nothing is lost -/

/--
The calls on a text lose nothing of it.  Every call that cuts something out moves the cursor, all
offsets lie between characters, the skipped characters are separators, and with them the raw
tokens make up the text.  What is cut out can be read as a lexeme, of which the raw token is the
source, and nothing is cut out behind a string without an end.
-/
structure Lossless (text : String) (calls : List Call) (last : Call) : Prop where
  progress : ∀ call ∈ calls, call.before.offset < call.after.offset
  boundaries : ∀ call ∈ calls ++ [last], ∀ offset ∈ call.offsets,
    (⟨offset⟩ : String.Pos.Raw).IsValid text
  blank : ∀ call ∈ calls ++ [last], ∀ c ∈ call.skipped text, isSeparator c = true
  whole : calls.flatMap (fun call => call.skipped text ++ call.raw text) ++ last.skipped text =
    text.toList
  lexemes : ∀ call ∈ calls, ∃ lexeme, call.lexeme? text = some lexeme ∧ lexeme.Readable ∧
    call.raw text = lexeme.source
  open_last : calls.Pairwise fun earlier _ => earlier.token.kind ≠ .unclosed

/-- In a well-formed spacing no lexeme but the last is a string without an end. -/
theorem Spacing.WellFormed.pairwise_ne_unclosed
    {spacing : Spacing}
    (formed : spacing.WellFormed) :
    spacing.pieces.Pairwise fun earlier _ => earlier.lexeme.kind ≠ .unclosed := by
  obtain ⟨pieces, tail⟩ := spacing
  induction pieces with
  | nil => exact .nil
  | cons piece pieces ih =>
      obtain ⟨-, -, -, later⟩ := Spacing.wellFormed_cons_iff.mp formed
      refine .cons (fun other member kind => ?_) (ih later)
      cases lexeme : piece.lexeme with
      | unclosed text =>
          obtain ⟨rfl, -⟩ := formed.open_last [] piece pieces text rfl lexeme
          cases member
      | word text | quoted text =>
          rw [lexeme] at kind
          cases kind

section

variable {text : String} {spacing : Spacing} {calls : List Call} {last : Call}

theorem map_lexeme?_of_rows
    (rows : List.Forall₂ (Call.Reads text) calls (placed [] spacing.pieces)) :
    calls.map (Call.lexeme? text) = spacing.lexemes.map some := by
  rw [map_eq_map_of_forall₂ rows (fun _ _ reads => reads.lexeme?_eq), Spacing.lexemes,
    ← map_piece_placed [] spacing.pieces, List.map_map, List.map_map, map_piece_placed]
  rfl

theorem Lossless.of_rows
    (formed : spacing.WellFormed)
    (same : spacing.source = text.toList)
    (rows : List.Forall₂ (Call.Reads text) calls (placed [] spacing.pieces))
    (finishes : last.Finishes text (spacing.pieces.flatMap Spaced.source) spacing.tail) :
    Lossless text calls last := by
  have each : ∀ call ∈ calls, ∃ item, item.piece ∈ spacing.pieces ∧ call.Reads text item := by
    intro call member
    obtain ⟨item, inside, reads⟩ := exists_of_mem_left rows member
    exact ⟨item, piece_mem_of_mem_placed inside, reads⟩
  refine ⟨fun call member => ?_, fun call member => ?_, fun call member => ?_, ?_,
    fun call member => ?_, ?_⟩
  · obtain ⟨item, inside, reads⟩ := each call member
    exact reads.before_lt_after (formed.readable _ inside)
  · rcases List.mem_append.mp member with early | final
    · obtain ⟨item, -, reads⟩ := each call early
      exact reads.isValid
    · obtain rfl := List.mem_singleton.mp final
      exact finishes.isValid
  · rcases List.mem_append.mp member with early | final
    · obtain ⟨item, inside, reads⟩ := each call early
      rw [reads.skipped_eq]
      exact formed.blanks _ inside
    · obtain rfl := List.mem_singleton.mp final
      rw [finishes.skipped_eq]
      exact formed.tail
  · have parts : calls.map (fun call => call.skipped text ++ call.raw text) =
        (placed [] spacing.pieces).map (Spaced.source ∘ Placed.piece) :=
      map_eq_map_of_forall₂ rows fun _ _ reads => by rw [reads.skipped_eq, reads.raw_eq]; rfl
    rw [finishes.skipped_eq, List.flatMap, parts, ← List.map_map, map_piece_placed, ← same,
      Spacing.source, List.flatMap]
  · obtain ⟨item, inside, reads⟩ := each call member
    exact ⟨_, reads.lexeme?_eq, formed.readable _ inside, reads.raw_eq⟩
  · have kinds : calls.map (fun call => call.token.kind) =
        spacing.pieces.map (fun piece => piece.lexeme.kind) := by
      rw [← map_piece_placed [] spacing.pieces, List.map_map]
      exact map_eq_map_of_forall₂ rows fun _ _ reads => by rw [reads.token]; rfl
    have apart := List.pairwise_map (R := fun earlier _ => earlier ≠ TokenKind.unclosed).mpr
      formed.pairwise_ne_unclosed
    rw [← kinds] at apart
    exact List.pairwise_map.mp apart

end

/--
The calls on a text come to its end and lose nothing of it.  What they cut out are the lexemes of
the text, and if the text has been made of lexemes with separators between them, it is these.
-/
theorem calls_lossless (text : String) :
    (∃ calls last, Calls text .start calls last) ∧
      ∀ calls last, Calls text .start calls last →
        Lossless text calls last ∧
          calls.map (Call.lexeme? text) = (lexemesOf text.toList).map some ∧
          ∀ spacing : Spacing, spacing.WellFormed → spacing.source = text.toList →
            lexemesOf text.toList = spacing.lexemes := by
  obtain ⟨spacing, calls, last, formed, same, made, rows, finishes⟩ := exists_calls text
  refine ⟨⟨calls, last, made⟩, fun others final again => ?_⟩
  obtain ⟨rfl, rfl⟩ := made.unique again
  refine ⟨.of_rows formed same rows finishes, ?_, fun other otherFormed otherSame => ?_⟩
  · rw [map_lexeme?_of_rows rows, ← same, formed.lexemesOf_eq]
  · rw [← otherSame, otherFormed.lexemesOf_eq]

/-- A word with a character zero, a string of two lines, a word, and a string without an end. -/
def touchingLexemes : Spacing :=
  ⟨[⟨[], .word "TAG\x00"⟩, ⟨[], .quoted "é\nn"⟩, ⟨[], .word "END"⟩,
    ⟨['\x0C', ' '], .unclosed "oops "⟩], []⟩

theorem calls_lossless_touching :
    touchingLexemes.WellFormed ∧
      ∃ calls last, Calls (String.ofList touchingLexemes.source) .start calls last ∧
        Lossless (String.ofList touchingLexemes.source) calls last ∧
        calls.map (Call.lexeme? (String.ofList touchingLexemes.source)) =
          touchingLexemes.lexemes.map some := by
  have formed : touchingLexemes.WellFormed := by decide
  obtain ⟨⟨calls, last, made⟩, whenever⟩ :=
    calls_lossless (String.ofList touchingLexemes.source)
  obtain ⟨lossless, read, back⟩ := whenever calls last made
  refine ⟨formed, calls, last, made, lossless, ?_⟩
  rw [read, back touchingLexemes formed String.toList_ofList.symm]

end Source
end GlyphLayout
