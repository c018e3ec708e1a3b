import GlyphLayout.Proofs.Source.Rendering
import Mathlib.Data.List.TakeWhile

/-!
# Lexemes of a text

The scanner reads back the lexemes of a line that was written with them, and gives no others
than words of word characters and strings without quotation marks.
-/

namespace GlyphLayout
namespace Source

open Text (isSeparator)

/-- The text can stand in a source as a word. -/
def IsWord (text : String) : Prop :=
  text.toList ≠ [] ∧ ∀ c ∈ text.toList, isWordChar c = true

instance (text : String) : Decidable (IsWord text) :=
  decidable_of_iff (text.toList.isEmpty = false ∧ text.toList.all isWordChar = true)
    (and_congr List.isEmpty_eq_false_iff List.all_eq_true)

/-- A word of word characters, or a string that has both its quotation marks and no others. -/
def Lexeme.Complete : Lexeme → Prop
  | word text => IsWord text
  | quoted text => '"' ∉ text.toList
  | unclosed _ => False

theorem isSeparator_of_isWordChar {c : Char} (inWord : isWordChar c = true) :
    isSeparator c = false := by
  simp only [isWordChar, Bool.and_eq_true, Bool.not_eq_true'] at inWord
  exact inWord.1

theorem quote_of_isWordChar {c : Char} (inWord : isWordChar c = true) : c ≠ '"' := by
  simp only [isWordChar, Bool.and_eq_true, bne_iff_ne] at inWord
  exact inWord.2

/-- Every character above the quotation mark may stand in a word. -/
theorem isWordChar_of_lt {c : Char} (above : '"'.toNat < c.toNat) : isWordChar c = true := by
  have quote : c ≠ '"' := by
    rintro rfl
    exact Nat.lt_irrefl _ above
  have space : c ≠ ' ' := by
    rintro rfl
    exact absurd above (by decide)
  have code : 34 < c.toNat := above
  have high : ¬ c.toNat ≤ 13 := by omega
  simp [isWordChar, isSeparator, quote, space, high]

theorem isWordChar_of_isDigit {c : Char} (digit : c.isDigit = true) : isWordChar c = true := by
  refine isWordChar_of_lt ?_
  simp only [Char.isDigit, Bool.and_eq_true, decide_eq_true_eq, ge_iff_le,
    UInt32.le_iff_toNat_le] at digit
  have low : 48 ≤ c.toNat := digit.1
  exact Nat.lt_of_lt_of_le (by decide) low

/-! ## Reading one lexeme -/

/-- The lexeme can be read from a text: no quotation mark ends a string too early. -/
def Lexeme.Readable : Lexeme → Prop
  | word text => IsWord text
  | quoted text => '"' ∉ text.toList
  | unclosed text => '"' ∉ text.toList

/-- The lexeme ends where the given text begins. -/
def Lexeme.StopsBefore : Lexeme → List Char → Prop
  | word _, rest => ∀ c ∈ rest.head?, isWordChar c = false
  | quoted _, _ => True
  | unclosed _, rest => rest = []

instance : DecidablePred Lexeme.Readable
  | .word text => inferInstanceAs (Decidable (IsWord text))
  | .quoted text | .unclosed text => inferInstanceAs (Decidable ('"' ∉ text.toList))

instance (lexeme : Lexeme) (rest : List Char) : Decidable (lexeme.StopsBefore rest) :=
  match lexeme with
  | .word _ =>
      decidable_of_iff (rest.head?.all (!isWordChar ·) = true)
        (by cases rest <;> simp [Lexeme.StopsBefore])
  | .quoted _ => isTrue trivial
  | .unclosed _ => inferInstanceAs (Decidable (rest = []))

theorem Lexeme.Complete.readable {lexeme : Lexeme} (complete : lexeme.Complete) :
    lexeme.Readable := by
  cases lexeme with
  | word text => exact complete
  | quoted text => exact complete
  | unclosed text => exact complete.elim

/-- A separator ends every lexeme that has an end. -/
theorem Lexeme.Complete.stopsBefore
    {lexeme : Lexeme}
    (complete : lexeme.Complete)
    {c : Char}
    (separator : isSeparator c = true)
    (rest : List Char) :
    lexeme.StopsBefore (c :: rest) := by
  cases lexeme with
  | word text => simp [Lexeme.StopsBefore, isWordChar, separator]
  | quoted text => trivial
  | unclosed text => exact complete.elim

/-- What the scanner reads can be read, and ends where it stops. -/
theorem readable_read
    {c : Char}
    (separator : isSeparator c = false)
    (cs : List Char) :
    (Lexeme.read c cs).1.Readable ∧ (Lexeme.read c cs).1.StopsBefore (Lexeme.read c cs).2 := by
  unfold Lexeme.read
  split
  · split
    · rename_i last
      have each := List.dropWhile_eq_nil_iff.mp last
      refine ⟨fun inside => ?_, rfl⟩
      rw [String.toList_ofList] at inside
      simpa using each _ inside
    · refine ⟨fun inside => ?_, trivial⟩
      rw [String.toList_ofList] at inside
      simpa using List.all_eq_true.mp List.all_takeWhile _ inside
  · rename_i quote
    refine ⟨⟨by simp, fun char member => ?_⟩, fun char head => ?_⟩
    · rw [String.toList_ofList] at member
      rcases List.mem_cons.mp member with rfl | later
      · simp [isWordChar, separator, quote]
      · exact List.all_eq_true.mp List.all_takeWhile _ later
    · have fails := List.head?_dropWhile_not isWordChar cs
      rw [Option.mem_def.mp head] at fails
      simpa using fails

/-- What the scanner reads is complete, but for a string without an end. -/
theorem complete_read
    {c : Char}
    (separator : isSeparator c = false)
    (cs : List Char) :
    (Lexeme.read c cs).1.Complete ∨ ∃ text, (Lexeme.read c cs).1 = .unclosed text := by
  obtain ⟨readable, -⟩ := readable_read separator cs
  cases found : (Lexeme.read c cs).1 <;> rw [found] at readable
  case word text => exact .inl readable
  case quoted text => exact .inl readable
  case unclosed text => exact .inr ⟨text, rfl⟩

/-- A lexeme in front of a text at which it ends is read as it is. -/
theorem exists_read_source
    {lexeme : Lexeme}
    (readable : lexeme.Readable)
    {rest : List Char}
    (stops : lexeme.StopsBefore rest) :
    ∃ first others, lexeme.source ++ rest = first :: others ∧
      isSeparator first = false ∧ Lexeme.read first others = (lexeme, rest) := by
  have inner {text : String} (clean : '"' ∉ text.toList) :
      ∀ char ∈ text.toList, (char != '"') = true := by
    intro char member
    rw [bne_iff_ne]
    rintro rfl
    exact clean member
  cases lexeme with
  | word text =>
      obtain ⟨filled, inWord⟩ := readable
      obtain ⟨first, others, split⟩ := List.exists_cons_of_ne_nil filled
      rw [split] at inWord
      obtain ⟨firstIn, othersIn⟩ := List.forall_mem_cons.mp inWord
      have front : rest.takeWhile isWordChar = [] := by
        cases rest with
        | nil => rfl
        | cons c cs => exact List.takeWhile_cons_of_neg (by simp [stops c rfl])
      have behind : rest.dropWhile isWordChar = rest := by
        cases rest with
        | nil => rfl
        | cons c cs => exact List.dropWhile_cons_of_neg (by simp [stops c rfl])
      refine ⟨first, others ++ rest, by simp [Lexeme.source, split],
        isSeparator_of_isWordChar firstIn, ?_⟩
      rw [Lexeme.read, if_neg (quote_of_isWordChar firstIn),
        List.takeWhile_append_of_pos othersIn, List.dropWhile_append_of_pos othersIn,
        front, behind, List.append_nil, ← split, String.ofList_toList]
  | quoted text =>
      refine ⟨'"', text.toList ++ '"' :: rest, by simp [Lexeme.source], by decide, ?_⟩
      rw [Lexeme.read, if_pos rfl, List.takeWhile_append_of_pos (inner readable),
        List.dropWhile_append_of_pos (inner readable), List.takeWhile_cons_of_neg (by simp),
        List.dropWhile_cons_of_neg (by simp)]
      simp
  | unclosed text =>
      obtain rfl : rest = [] := stops
      refine ⟨'"', text.toList, by simp [Lexeme.source], by decide, ?_⟩
      have none : text.toList.dropWhile (· != '"') = [] :=
        List.dropWhile_eq_nil_iff.mpr (inner readable)
      rw [Lexeme.read, if_pos rfl, none, String.ofList_toList]

/-! ## Reading a text -/

/-- What holds of blank texts, and of a text if it holds behind its first lexeme, always holds. -/
theorem text_induction
    {motive : List Char → Prop}
    (blank : ∀ text, text.dropWhile isSeparator = [] → motive text)
    (next : ∀ text c cs, text.dropWhile isSeparator = c :: cs →
      motive (Lexeme.read c cs).2 → motive text)
    (text : List Char) :
    motive text := by
  match found : text.dropWhile isSeparator with
  | [] => exact blank text found
  | c :: cs => exact next text c cs found (text_induction blank next (Lexeme.read c cs).2)
termination_by text.length
decreasing_by
  have shorter := (List.dropWhile_suffix (l := text) isSeparator).length_le
  have rest := Lexeme.length_read_le c cs
  rw [found, List.length_cons] at shorter
  omega

/-- The lexemes of a text. -/
def lexemesOf (text : List Char) : List Lexeme :=
  (scan .start text).1.map Token.lexeme

theorem scan_nil {text : List Char} (blank : text.dropWhile isSeparator = [])
    (location : Location) :
    (scan location text).1 = [] := by
  rw [scan]
  split
  · rfl
  · simp_all

theorem scan_eq_cons
    {text : List Char} {c : Char} {cs : List Char}
    (found : text.dropWhile isSeparator = c :: cs)
    (location : Location) :
    (scan location text).1 =
      ⟨(Lexeme.read c cs).1, location.after (text.takeWhile isSeparator)⟩ ::
        (scan ((location.after (text.takeWhile isSeparator)).after (Lexeme.read c cs).1.source)
          (Lexeme.read c cs).2).1 := by
  rw [scan]
  split
  · simp_all
  · rename_i first others same
    rw [found] at same
    cases same
    rfl

theorem scan_cons
    {text : List Char} {c : Char} {cs : List Char}
    (found : text.dropWhile isSeparator = c :: cs)
    (location : Location) :
    ∃ later, (scan location text).1 =
      ⟨(Lexeme.read c cs).1, location.after (text.takeWhile isSeparator)⟩ ::
        (scan later (Lexeme.read c cs).2).1 :=
  ⟨_, scan_eq_cons found location⟩

/-- The lexemes do not depend on the place at which the text starts. -/
theorem map_lexeme_scan (location : Location) (text : List Char) :
    (scan location text).1.map Token.lexeme = lexemesOf text := by
  suffices agree : ∀ location other : Location,
      (scan location text).1.map Token.lexeme = (scan other text).1.map Token.lexeme from
    agree location .start
  induction text using text_induction with
  | blank text blank =>
      intro location other
      rw [scan_nil blank, scan_nil blank]
  | next text c cs found ih =>
      intro location other
      obtain ⟨later, scanned⟩ := scan_cons found location
      obtain ⟨laterOther, scannedOther⟩ := scan_cons found other
      rw [scanned, scannedOther, List.map_cons, List.map_cons, ih later laterOther]

@[simp] theorem lexemesOf_nil : lexemesOf [] = [] := by
  rw [lexemesOf, scan_nil rfl, List.map_nil]

/-- Separators in front of a text have no lexemes. -/
theorem lexemesOf_separator
    {c : Char}
    (separator : isSeparator c = true)
    (rest : List Char) :
    lexemesOf (c :: rest) = lexemesOf rest := by
  have skip : (c :: rest).dropWhile isSeparator = rest.dropWhile isSeparator :=
    List.dropWhile_cons_of_pos separator
  cases found : rest.dropWhile isSeparator with
  | nil => rw [lexemesOf, lexemesOf, scan_nil (skip.trans found), scan_nil found]
  | cons first others =>
      obtain ⟨later, scanned⟩ := scan_cons (skip.trans found) .start
      obtain ⟨laterRest, scannedRest⟩ := scan_cons found .start
      rw [lexemesOf, lexemesOf, scanned, scannedRest, List.map_cons, List.map_cons,
        map_lexeme_scan, map_lexeme_scan]

/-- A complete lexeme in front of a separator is the first lexeme. -/
theorem lexemesOf_source
    {lexeme : Lexeme}
    (complete : lexeme.Complete)
    {c : Char}
    (separator : isSeparator c = true)
    (rest : List Char) :
    lexemesOf (lexeme.source ++ c :: rest) = lexeme :: lexemesOf rest := by
  obtain ⟨first, others, split, notSeparator, read⟩ :=
    exists_read_source complete.readable (complete.stopsBefore separator rest)
  have found : (first :: others).dropWhile isSeparator = first :: others :=
    List.dropWhile_cons_of_neg (by simp [notSeparator])
  obtain ⟨later, scanned⟩ := scan_cons found .start
  rw [split, lexemesOf, scanned, List.map_cons, map_lexeme_scan, read,
    lexemesOf_separator separator]

/-- A line of complete lexemes is read as these lexemes. -/
theorem lexemesOf_line
    {lexemes : List Lexeme}
    (complete : ∀ lexeme ∈ lexemes, lexeme.Complete)
    (rest : List Char) :
    lexemesOf (line lexemes ++ rest) = lexemes ++ lexemesOf rest := by
  unfold line
  induction lexemes with
  | nil => exact lexemesOf_separator rfl rest
  | cons lexeme others ih =>
      obtain ⟨first, later⟩ := List.forall_mem_cons.mp complete
      cases others with
      | nil => simpa [List.intercalate] using lexemesOf_source first rfl rest
      | cons next others =>
          have followed := ih later
          rw [List.map_cons, List.map_cons, List.intercalate_cons_cons]
          rw [List.map_cons] at followed
          simp only [List.append_assoc, List.cons_append, List.nil_append] at followed ⊢
          rw [lexemesOf_source first rfl, followed]

theorem lexemesOf_flatMap_line
    {α : Type}
    (write : α → List Lexeme)
    {items : List α}
    (complete : ∀ item ∈ items, ∀ lexeme ∈ write item, lexeme.Complete)
    (rest : List Char) :
    lexemesOf (items.flatMap (fun item => line (write item)) ++ rest) =
      items.flatMap write ++ lexemesOf rest := by
  induction items with
  | nil => rfl
  | cons item items ih =>
      obtain ⟨first, later⟩ := List.forall_mem_cons.mp complete
      simp only [List.flatMap_cons, List.append_assoc]
      rw [lexemesOf_line first, ih later]

/-- The canonical text of a source is read as the lexemes with which it was written. -/
theorem lexemesOf_render
    {statements : List Statement}
    (complete : ∀ statement ∈ statements, ∀ lexeme ∈ statement.lexemes, lexeme.Complete) :
    lexemesOf (render statements).toList = sourceLexemes statements := by
  have closing : lexemesOf (line [.word "END"] ++ []) = [.word "END"] ++ lexemesOf [] :=
    lexemesOf_line (by simp [Lexeme.Complete]; decide) []
  rw [List.append_nil, lexemesOf_nil, List.append_nil] at closing
  rw [render, String.toList_ofList, lexemesOf_flatMap_line Statement.lexemes complete, closing,
    sourceLexemes]

/-- Each token of a text is complete, but for a string without an end. -/
theorem complete_of_mem_scan
    {location : Location} {text : List Char} {token : Token}
    (member : token ∈ (scan location text).1) :
    token.lexeme.Complete ∨ ∃ rest, token.lexeme = .unclosed rest := by
  induction text using text_induction generalizing location with
  | blank text blank => simp [scan_nil blank] at member
  | next text c cs found ih =>
      have separator : isSeparator c = false := by
        simpa [found] using List.head?_dropWhile_not isSeparator text
      obtain ⟨later, scanned⟩ := scan_cons found location
      rw [scanned] at member
      rcases List.mem_cons.mp member with rfl | others
      · exact complete_read separator cs
      · exact ih others

end Source
end GlyphLayout
