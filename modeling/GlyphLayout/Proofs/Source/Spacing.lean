import GlyphLayout.Proofs.Source.Lexing
import Mathlib.Data.List.Chain

/-!
# Lexemes and the separators between them

A text is a sequence of lexemes with separators in front of each and behind the last.  The
separators may be missing, except between two words.  Every text is spaced in this way, and the
scanner reads back the lexemes of whatever is.
-/

namespace GlyphLayout
namespace Source

open Text (isSeparator)

/-- A lexeme, and the separators in front of it. -/
structure Spaced where
  blank : List Char
  lexeme : Lexeme
deriving Repr, DecidableEq

namespace Spaced

/-- The separators and the lexeme, as they stand in a text. -/
def source (piece : Spaced) : List Char :=
  piece.blank ++ piece.lexeme.source

/-- Separators stand between two words. -/
def Apart (first second : Spaced) : Prop :=
  ∀ text other, first.lexeme = .word text → second.lexeme = .word other → second.blank ≠ []

end Spaced

/-- Lexemes with the separators in front of them, and the separators behind the last one. -/
structure Spacing where
  pieces : List Spaced
  tail : List Char
deriving Repr, DecidableEq

namespace Spacing

/-- The text that is spaced in this way. -/
def source (spacing : Spacing) : List Char :=
  spacing.pieces.flatMap Spaced.source ++ spacing.tail

/-- The lexemes without the separators. -/
def lexemes (spacing : Spacing) : List Lexeme :=
  spacing.pieces.map Spaced.lexeme

@[simp] theorem source_nil (tail : List Char) : source ⟨[], tail⟩ = tail := rfl

@[simp] theorem source_cons (piece : Spaced) (pieces : List Spaced) (tail : List Char) :
    source ⟨piece :: pieces, tail⟩ =
      piece.blank ++ (piece.lexeme.source ++ source ⟨pieces, tail⟩) := by
  simp [source, Spaced.source]

/--
The lexemes can be read, nothing but separators stands between them, two words are kept apart,
and a string without an end is the last that there is.
-/
structure WellFormed (spacing : Spacing) : Prop where
  blanks : ∀ piece ∈ spacing.pieces, ∀ c ∈ piece.blank, isSeparator c = true
  tail : ∀ c ∈ spacing.tail, isSeparator c = true
  readable : ∀ piece ∈ spacing.pieces, piece.lexeme.Readable
  apart : spacing.pieces.IsChain Spaced.Apart
  open_last : ∀ front piece behind text, spacing.pieces = front ++ piece :: behind →
    piece.lexeme = .unclosed text → behind = [] ∧ spacing.tail = []

/-! ## One lexeme in front of the others -/

variable {piece : Spaced} {pieces : List Spaced} {tail : List Char}

theorem source_ne_nil (lexeme : Lexeme) (readable : lexeme.Readable) : lexeme.source ≠ [] := by
  cases lexeme with
  | word text => exact readable.1
  | quoted text | unclosed text => simp [Lexeme.source]

theorem source_eq_nil_iff (readable : ∀ piece ∈ pieces, piece.lexeme.Readable) :
    source ⟨pieces, tail⟩ = [] ↔ pieces = [] ∧ tail = [] := by
  cases pieces with
  | nil => simp
  | cons piece pieces =>
      have filled := source_ne_nil _ (readable piece (List.mem_cons_self ..))
      simp [filled]

/-- The first character of a lexeme stands in a word if and only if the lexeme is a word. -/
theorem isWordChar_head_source
    {lexeme : Lexeme} {c : Char}
    (readable : lexeme.Readable)
    (head : c ∈ lexeme.source.head?) :
    isWordChar c = true ↔ ∃ text, lexeme = .word text := by
  cases lexeme with
  | word text =>
      have inWord := readable.2 c (List.mem_of_head? head)
      simp [inWord]
  | quoted text | unclosed text =>
      obtain rfl : '"' = c := by simpa [Lexeme.source] using head
      simp
      decide

/-- A word ends in front of the next lexeme exactly if that is no word or separators come first. -/
theorem stopsBefore_word_iff
    {text : String}
    (blank : ∀ c ∈ piece.blank, isSeparator c = true)
    (readable : piece.lexeme.Readable)
    (rest : List Char) :
    (Lexeme.word text).StopsBefore (piece.blank ++ (piece.lexeme.source ++ rest)) ↔
      ∀ other, piece.lexeme = .word other → piece.blank ≠ [] := by
  unfold Lexeme.StopsBefore
  cases separators : piece.blank with
  | cons c cs =>
      have separator := blank c (separators ▸ List.mem_cons_self ..)
      simp [isWordChar, separator]
  | nil =>
      obtain ⟨c, cs, same⟩ := List.exists_cons_of_ne_nil (source_ne_nil _ readable)
      have first := isWordChar_head_source readable (c := c) (by simp [same])
      rw [same, List.nil_append, List.cons_append]
      change (∀ char ∈ some c, isWordChar char = false) ↔ _
      constructor
      · intro fails other word
        have passes := first.mpr ⟨other, word⟩
        rw [fails c rfl] at passes
        cases passes
      · rintro noWord _ ⟨⟩
        rw [Bool.eq_false_iff, Ne, first]
        rintro ⟨other, word⟩
        exact noWord other word rfl

/-- A lexeme ends in front of others if it is kept apart from the next, or is the last one. -/
theorem stopsBefore_source_iff
    (blanks : ∀ next ∈ pieces, ∀ c ∈ next.blank, isSeparator c = true)
    (separators : ∀ c ∈ tail, isSeparator c = true)
    (readable : ∀ next ∈ pieces, next.lexeme.Readable) :
    piece.lexeme.StopsBefore (source ⟨pieces, tail⟩) ↔
      (∀ next ∈ pieces.head?, piece.Apart next) ∧
        ∀ text, piece.lexeme = .unclosed text → pieces = [] ∧ tail = [] := by
  cases lexeme : piece.lexeme with
  | quoted text => simp [Lexeme.StopsBefore, Spaced.Apart, lexeme]
  | unclosed text =>
      simpa [Lexeme.StopsBefore, Spaced.Apart, lexeme] using source_eq_nil_iff readable
  | word text =>
      cases pieces with
      | nil =>
          have ends : ∀ c ∈ tail.head?, isWordChar c = false := by
            intro c head
            simp [isWordChar, separators c (List.mem_of_head? head)]
          simpa [Lexeme.StopsBefore] using ends
      | cons next others =>
          rw [source_cons, stopsBefore_word_iff (blanks next (List.mem_cons_self ..))
            (readable next (List.mem_cons_self ..))]
          constructor
          · intro apart
            refine ⟨?_, fun _ unclosed => Lexeme.noConfusion unclosed⟩
            rintro _ ⟨⟩ _ other - second
            exact apart other second
          · rintro ⟨apart, -⟩ other second
            exact apart next rfl text other lexeme second

/-- A spacing is well-formed if each of its lexemes ends where the next one begins. -/
theorem wellFormed_cons_iff :
    WellFormed ⟨piece :: pieces, tail⟩ ↔
      (∀ c ∈ piece.blank, isSeparator c = true) ∧ piece.lexeme.Readable ∧
        piece.lexeme.StopsBefore (source ⟨pieces, tail⟩) ∧ WellFormed ⟨pieces, tail⟩ := by
  constructor
  · rintro ⟨blanks, separators, readable, apart, openLast⟩
    obtain ⟨blank, laterBlanks⟩ := List.forall_mem_cons.mp blanks
    obtain ⟨first, later⟩ := List.forall_mem_cons.mp readable
    have ⟨here, behind⟩ := List.isChain_cons.mp apart
    refine ⟨blank, first, (stopsBefore_source_iff laterBlanks separators later).mpr ⟨here, ?_⟩,
      laterBlanks, separators, later, behind, ?_⟩
    · exact fun text => openLast [] piece pieces text rfl
    · intro front other behind text split
      exact openLast (piece :: front) other behind text (congrArg (List.cons piece) split)
  · rintro ⟨blank, first, stops, laterBlanks, separators, later, apart, openLast⟩
    obtain ⟨here, last⟩ := (stopsBefore_source_iff laterBlanks separators later).mp stops
    refine ⟨List.forall_mem_cons.mpr ⟨blank, laterBlanks⟩, separators,
      List.forall_mem_cons.mpr ⟨first, later⟩, List.isChain_cons.mpr ⟨here, apart⟩, ?_⟩
    intro front other behind text split unclosed
    cases front with
    | nil =>
        obtain ⟨rfl, rfl⟩ := List.cons.inj split
        exact last text unclosed
    | cons head front =>
        obtain ⟨-, later⟩ := List.cons.inj split
        exact openLast front other behind text later unclosed

theorem wellFormed_nil_iff : WellFormed ⟨[], tail⟩ ↔ ∀ c ∈ tail, isSeparator c = true :=
  ⟨WellFormed.tail, fun separators => ⟨by simp, separators, by simp, .nil, by simp⟩⟩

/-- Whether some lexemes with separators behind them are well-formed. -/
def decideWellFormed (tail : List Char) :
    (pieces : List Spaced) → Decidable (WellFormed ⟨pieces, tail⟩)
  | [] =>
      decidable_of_iff (tail.all isSeparator = true) (by rw [wellFormed_nil_iff, List.all_eq_true])
  | piece :: pieces =>
      have := decideWellFormed tail pieces
      decidable_of_iff
        (piece.blank.all isSeparator = true ∧ piece.lexeme.Readable ∧
          piece.lexeme.StopsBefore (source ⟨pieces, tail⟩) ∧ WellFormed ⟨pieces, tail⟩)
        (by rw [wellFormed_cons_iff, List.all_eq_true])

instance : DecidablePred WellFormed := fun spacing => decideWellFormed spacing.tail spacing.pieces

/-! ## Every text is spaced -/

theorem exists_wellFormed (text : List Char) :
    ∃ spacing : Spacing, spacing.WellFormed ∧ spacing.source = text := by
  induction text using text_induction with
  | blank text blank =>
      exact ⟨⟨[], text⟩, wellFormed_nil_iff.mpr (List.dropWhile_eq_nil_iff.mp blank), rfl⟩
  | next text c cs found ih =>
      obtain ⟨⟨pieces, tail⟩, formed, same⟩ := ih
      have separator : isSeparator c = false := by
        simpa [found] using List.head?_dropWhile_not isSeparator text
      obtain ⟨readable, stops⟩ := readable_read separator cs
      refine ⟨⟨⟨text.takeWhile isSeparator, (Lexeme.read c cs).1⟩ :: pieces, tail⟩, ?_, ?_⟩
      · rw [← same] at stops
        exact wellFormed_cons_iff.mpr
          ⟨List.all_eq_true.mp List.all_takeWhile, readable, stops, formed⟩
      · rw [source_cons, same, Lexeme.source_append_read, ← found,
          List.takeWhile_append_dropWhile]

/-- The first lexeme of a spaced text, as the scanner comes upon it. -/
theorem WellFormed.exists_read
    (formed : WellFormed ⟨piece :: pieces, tail⟩) :
    ∃ c cs, (source ⟨piece :: pieces, tail⟩).takeWhile isSeparator = piece.blank ∧
      (source ⟨piece :: pieces, tail⟩).dropWhile isSeparator = c :: cs ∧
      Lexeme.read c cs = (piece.lexeme, source ⟨pieces, tail⟩) := by
  obtain ⟨blank, readable, stops, -⟩ := wellFormed_cons_iff.mp formed
  obtain ⟨c, cs, split, notSeparator, read⟩ := exists_read_source readable stops
  refine ⟨c, cs, ?_, ?_, read⟩
  · rw [source_cons, split, List.takeWhile_append_of_pos blank,
      List.takeWhile_cons_of_neg (by simp [notSeparator]), List.append_nil]
  · rw [source_cons, split, List.dropWhile_append_of_pos blank,
      List.dropWhile_cons_of_neg (by simp [notSeparator])]

end Spacing

/-! ## Lexemes in their places -/

/-- A spaced lexeme, and all that stands in front of it in a text. -/
structure Placed where
  front : List Char
  piece : Spaced

namespace Placed

/-- What stands in front of the lexeme itself. -/
def before (placed : Placed) : List Char :=
  placed.front ++ placed.piece.blank

/-- What stands in front of the text behind the lexeme. -/
def through (placed : Placed) : List Char :=
  placed.front ++ placed.piece.source

/-- The lexeme with the place at which it starts. -/
def token (placed : Placed) : Token :=
  ⟨placed.piece.lexeme, Location.start.after placed.before⟩

theorem through_eq (placed : Placed) :
    placed.through = placed.before ++ placed.piece.lexeme.source := by
  rw [through, before, Spaced.source, List.append_assoc]

theorem before_prefix_through (placed : Placed) : placed.before <+: placed.through :=
  ⟨_, placed.through_eq.symm⟩

end Placed

/-- Each of some lexemes in a row, with all that stands in front of it. -/
def placed (front : List Char) : List Spaced → List Placed
  | [] => []
  | piece :: pieces => ⟨front, piece⟩ :: placed (front ++ piece.source) pieces

theorem map_piece_placed (front : List Char) (pieces : List Spaced) :
    (placed front pieces).map Placed.piece = pieces := by
  induction pieces generalizing front with
  | nil => rfl
  | cons piece pieces ih => rw [placed, List.map_cons, ih]

theorem piece_mem_of_mem_placed
    {front : List Char} {pieces : List Spaced} {item : Placed}
    (member : item ∈ placed front pieces) :
    item.piece ∈ pieces := by
  rw [← map_piece_placed front pieces]
  exact List.mem_map_of_mem member

/-- What stands in front of all stands in front of each. -/
theorem prefix_front_of_mem_placed
    {front : List Char} {pieces : List Spaced} {item : Placed}
    (member : item ∈ placed front pieces) :
    front <+: item.front := by
  induction pieces generalizing front with
  | nil => cases member
  | cons piece pieces ih =>
      rcases List.mem_cons.mp member with rfl | later
      · exact List.prefix_refl _
      · exact (List.prefix_append ..).trans (ih later)

/-- A lexeme stands with all in front of it in front of every later one. -/
theorem pairwise_placed (front : List Char) (pieces : List Spaced) :
    (placed front pieces).Pairwise fun earlier later => earlier.through <+: later.front := by
  induction pieces generalizing front with
  | nil => exact .nil
  | cons piece pieces ih =>
      exact .cons (fun item member => prefix_front_of_mem_placed member) (ih _)

/-- The scanner finds the lexemes of a spaced text, each in its place. -/
theorem scan_source
    {spacing : Spacing}
    (formed : spacing.WellFormed)
    (front : List Char) :
    (scan (Location.start.after front) spacing.source).1 =
      (placed front spacing.pieces).map Placed.token := by
  obtain ⟨pieces, tail⟩ := spacing
  induction pieces generalizing front with
  | nil =>
      rw [Spacing.source_nil, scan_nil (List.dropWhile_eq_nil_iff.mpr formed.tail)]
      rfl
  | cons piece pieces ih =>
      obtain ⟨c, cs, blank, found, read⟩ := formed.exists_read
      have behind : ((Location.start.after front).after piece.blank).after piece.lexeme.source =
          Location.start.after (front ++ piece.source) := by
        rw [← Location.after_append, ← Location.after_append]
        rfl
      obtain ⟨-, -, -, later⟩ := Spacing.wellFormed_cons_iff.mp formed
      rw [scan_eq_cons found, read, blank, behind, ih _ later, placed, List.map_cons, Placed.token,
        Placed.before, Location.after_append]

theorem scan_start
    {spacing : Spacing} {text : List Char}
    (formed : spacing.WellFormed)
    (same : spacing.source = text) :
    (scan .start text).1 = (placed [] spacing.pieces).map Placed.token := by
  have scanned := scan_source formed []
  rwa [Location.after_nil, same] at scanned

/-- The lexemes of a spaced text are those with which it has been spaced. -/
theorem Spacing.WellFormed.lexemesOf_eq {spacing : Spacing} (formed : spacing.WellFormed) :
    lexemesOf spacing.source = spacing.lexemes :=
  calc lexemesOf spacing.source
      = ((placed [] spacing.pieces).map Placed.token).map Token.lexeme := by
        rw [lexemesOf, scan_start formed rfl]
    _ = ((placed [] spacing.pieces).map Placed.piece).map Spaced.lexeme := by
        rw [List.map_map, List.map_map]
        rfl
    _ = spacing.lexemes := by rw [map_piece_placed, Spacing.lexemes]

end Source
end GlyphLayout
