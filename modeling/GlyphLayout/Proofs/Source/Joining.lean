import GlyphLayout.Proofs.Source.Layout
import GlyphLayout.Proofs.Source.Stability

/-!
# One source behind another

Two sources on lines of their own are one source, which has the statements of the first and then
those of the second.  The first must not have been closed with `END`, and the second must not
begin with a numeral, which a setting at the end of the first would take as one of its values.
-/

namespace GlyphLayout
namespace Source

open Text (isSeparator)

/-! ## Lexemes of joined texts -/

theorem takeWhile_append_of_stop
    {p : Char → Bool} {stop : Char}
    (stops : p stop = false)
    (text rest : List Char) :
    (text ++ stop :: rest).takeWhile p = text.takeWhile p := by
  induction text with
  | nil => simp [stops]
  | cons c cs ih => simp only [List.cons_append, List.takeWhile_cons, ih]

theorem dropWhile_append_of_stop
    {p : Char → Bool} {stop : Char}
    (stops : p stop = false)
    (text rest : List Char) :
    (text ++ stop :: rest).dropWhile p = text.dropWhile p ++ stop :: rest := by
  induction text with
  | nil => simp [stops]
  | cons c cs ih =>
      simp only [List.cons_append, List.dropWhile_cons, ih]
      split <;> rfl

/-- A lexeme that has an end is read in the same way in front of a separator and more text. -/
theorem read_append
    {c : Char} {cs : List Char}
    (closed : (Lexeme.read c cs).1.IsClosed)
    {separator : Char}
    (separates : isSeparator separator = true)
    (more : List Char) :
    Lexeme.read c (cs ++ separator :: more) =
      ((Lexeme.read c cs).1, (Lexeme.read c cs).2 ++ separator :: more) := by
  unfold Lexeme.read at closed ⊢
  split
  · rename_i quote
    rw [if_pos quote] at closed
    cases found : cs.dropWhile (· != '"') with
    | nil => simp [found, Lexeme.IsClosed] at closed
    | cons stop rest =>
        have inside : cs.takeWhile (· != '"') ++ stop :: rest = cs := by
          rw [← found, List.takeWhile_append_dropWhile]
        have closes : (stop != '"') = false := by
          simpa [found] using List.head?_dropWhile_not (· != '"') cs
        have front : (cs ++ separator :: more).takeWhile (· != '"') =
            cs.takeWhile (· != '"') := by
          rw [← inside, List.append_assoc, List.cons_append]
          rw [takeWhile_append_of_stop (p := (· != '"')) closes,
            takeWhile_append_of_stop (p := (· != '"')) closes]
        have back : (cs ++ separator :: more).dropWhile (· != '"') =
            stop :: (rest ++ separator :: more) := by
          rw [List.dropWhile_append, found]
          rfl
        rw [front, back]
  · have stops : isWordChar separator = false := by simp [isWordChar, separates]
    rw [takeWhile_append_of_stop stops, dropWhile_append_of_stop stops]

/-- A text that begins with a lexeme has those of the text behind it as well. -/
theorem lexemesOf_of_dropWhile
    {text : List Char} {c : Char} {cs : List Char}
    (found : text.dropWhile isSeparator = c :: cs) :
    lexemesOf text = (Lexeme.read c cs).1 :: lexemesOf (Lexeme.read c cs).2 := by
  obtain ⟨later, scanned⟩ := scan_cons found .start
  rw [lexemesOf, scanned, List.map_cons, map_lexeme_scan]

/-- A text of separators in front of another has no lexemes. -/
theorem lexemesOf_blank_append
    {blank : List Char}
    (separates : blank.dropWhile isSeparator = [])
    (text : List Char) :
    lexemesOf (blank ++ text) = lexemesOf text := by
  induction blank with
  | nil => rfl
  | cons c cs ih =>
      have each := List.dropWhile_eq_nil_iff.mp separates
      obtain ⟨first, others⟩ := List.forall_mem_cons.mp each
      rw [List.cons_append, lexemesOf_separator first, ih (List.dropWhile_eq_nil_iff.mpr others)]

/-- The lexemes of two texts with a separator between them, of which the first ends. -/
theorem lexemesOf_append
    {first : List Char}
    (closed : ∀ lexeme ∈ lexemesOf first, lexeme.IsClosed)
    {separator : Char}
    (separates : isSeparator separator = true)
    (second : List Char) :
    lexemesOf (first ++ separator :: second) = lexemesOf first ++ lexemesOf second := by
  induction first using text_induction with
  | blank text blank =>
      have empty : lexemesOf text = [] := by rw [lexemesOf, scan_nil blank, List.map_nil]
      rw [lexemesOf_blank_append blank, lexemesOf_separator separates, empty, List.nil_append]
  | next text c cs found ih =>
      have foundAgain : (text ++ separator :: second).dropWhile isSeparator =
          c :: (cs ++ separator :: second) := by
        rw [List.dropWhile_append, found]
        rfl
      rw [lexemesOf_of_dropWhile found] at closed
      obtain ⟨closedFirst, closedLater⟩ := List.forall_mem_cons.mp closed
      rw [lexemesOf_of_dropWhile foundAgain, read_append closedFirst separates,
        lexemesOf_of_dropWhile found, ih closedLater, List.cons_append]

namespace Parser

variable {α : Type}

/-! ## Rows of items -/

/-- The items that are read one after the other, and the tokens that are left behind them. -/
inductive Row (item : Parser (Option α)) : Remaining → List α → Remaining → Prop
  | nil (remaining : Remaining) : Row item remaining [] remaining
  | cons {remaining middle rest : Remaining} {value : α} {values : List α}
      (first : item remaining = .ok (some value, middle))
      (others : Row item middle values rest) :
      Row item remaining (value :: values) rest

theorem Row.append
    {item : Parser (Option α)} {remaining middle rest : Remaining} {values others : List α}
    (row : Row item remaining values middle)
    (later : Row item middle others rest) :
    Row item remaining (values ++ others) rest := by
  induction row with
  | nil => exact later
  | cons first _ ih => exact .cons first (ih later)

/-- A row of items is read into a list, if every item takes a token. -/
theorem Row.iterate_eq
    {item : Parser (Option α)}
    (takes : ∀ {remaining value rest}, item remaining = .ok (some value, rest) →
      rest.size < remaining.size)
    {remaining middle rest : Remaining} {values : List α}
    (row : Row item remaining values middle)
    (last : item middle = .ok (none, rest))
    (found : List α) :
    iterate (fun found => do return (← item).map (· :: found)) found remaining =
      .ok (values.reverse ++ found, rest) := by
  induction row generalizing found with
  | nil => exact iterate_stop (listStep_eq_none_iff.mpr last)
  | cons first _ ih =>
      rw [iterate, listStep_eq_some_iff.mpr ⟨_, first, rfl⟩]
      simp only [takes first, if_true]
      rw [ih last, List.reverse_cons, List.append_assoc, List.singleton_append]

/-- A list is a row of items behind which nothing more is read, if every item takes a token. -/
theorem many_eq_ok_iff
    {item : Parser (Option α)}
    (takes : ∀ {remaining value rest}, item remaining = .ok (some value, rest) →
      rest.size < remaining.size)
    {remaining rest : Remaining} {values : List α} :
    many item remaining = .ok (values, rest) ↔
      ∃ middle, Row item remaining values middle ∧ item middle = .ok (none, rest) := by
  constructor
  · intro ran
    obtain ⟨found, last, ranAll, made⟩ := bind_eq_ok_iff.mp ran
    cases made
    refine iterate_invariant (fun found middle => Row item remaining found.reverse middle)
      (fun found rest => ∃ middle, Row item remaining found.reverse middle ∧
        item middle = .ok (none, rest))
      (fun row step => ?_) (fun row step => ?_) (fun _ step less => ?_) (.nil remaining) ranAll
    · obtain ⟨value, ranItem, rfl⟩ := listStep_eq_some_iff.mp step
      rw [List.reverse_cons]
      exact row.append (.cons ranItem (.nil _))
    · exact ⟨_, row, listStep_eq_none_iff.mp step⟩
    · obtain ⟨value, ranItem, -⟩ := listStep_eq_some_iff.mp step
      exact absurd (takes ranItem) less
  · rintro ⟨middle, row, last⟩
    refine bind_eq_ok_iff.mpr ⟨values.reverse, rest, ?_, by rw [List.reverse_reverse]; rfl⟩
    rw [row.iterate_eq takes last, List.append_nil]

/-! ## Rows of statements -/

/-- What a statement has read, and that it is read in the same way if more tokens come behind. -/
theorem statement?_append
    {remaining rest : Remaining} {value : Statement}
    (ran : statement? remaining = .ok (some value, rest)) :
    remaining.ReadsTo rest ∧
      ∀ more, rest.StopsAt (fun lexeme => numeralWord? lexeme = none) more →
        statement? (remaining.append more) = .ok (some value, rest.append more) := by
  obtain ⟨token, middle, opening, next, word, notEnd, ranStatement⟩ :=
    statement?_eq_some_iff.mp ran
  have stable := stable_statement opening token.location
  have closed : token.lexeme.IsClosed := by
    rw [word]
    trivial
  refine ⟨(Remaining.ReadsTo.next next closed).trans (stable.reads ranStatement),
    fun more stops => ?_⟩
  exact statement?_eq_some_iff.mpr ⟨token, middle.append more, opening,
    Remaining.next?_append next more, word, notEnd, stable.stays ranStatement stops⟩

theorem statement?_takes
    {remaining rest : Remaining} {value : Statement}
    (ran : statement? remaining = .ok (some value, rest)) :
    rest.size < remaining.size := by
  obtain ⟨token, middle, opening, next, -, -, ranStatement⟩ := statement?_eq_some_iff.mp ran
  obtain ⟨read, split, -⟩ := (stable_statement opening token.location).reads ranStatement
  have shorter := Remaining.size_next next
  have length := congrArg List.length split
  rw [List.length_append, middle.counted, rest.counted] at length
  omega

/-- Where no token can be taken, none is left. -/
theorem take?_some_eq_none
    {remaining rest : Remaining}
    (ran : take? some remaining = .ok (none, rest)) :
    remaining.tokens = [] := by
  obtain ⟨-, nothing⟩ := take?_eq_none ran
  cases next : remaining.next? with
  | none => exact Remaining.tokens_eq_nil_of_next? next
  | some pair => cases nothing pair.1 pair.2 next

theorem opening?_eq_none
    {remaining rest : Remaining}
    (ran : opening? remaining = .ok (none, rest)) :
    remaining.tokens = [] := by
  obtain ⟨found, middle, ranTake, last⟩ := bind_eq_ok_iff.mp ran
  rcases found with _ | ⟨lexeme, location⟩
  · exact take?_some_eq_none ranTake
  · cases lexeme <;> cases last

theorem endOfText_eq_ok
    {remaining rest : Remaining}
    (ran : endOfText remaining = .ok ((), rest)) :
    remaining.tokens = [] := by
  obtain ⟨found, middle, ranTake, last⟩ := bind_eq_ok_iff.mp ran
  rcases found with _ | ⟨lexeme, location⟩
  · exact take?_some_eq_none ranTake
  · cases last

/-- No statement comes where no tokens are left, or only the word that closes a source. -/
theorem statement?_closes
    {remaining rest : Remaining}
    (ran : statement? remaining = .ok (none, rest)) :
    remaining.tokens = [] ∨ remaining.tokens.map Token.lexeme = [.word "END"] := by
  rw [statement?_eq] at ran
  obtain ⟨found, middle, ranOpening, last⟩ := bind_eq_ok_iff.mp ran
  rcases found with _ | ⟨opening, location⟩
  · exact .inl (opening?_eq_none ranOpening)
  · obtain ⟨token, next, word, -⟩ := opening?_eq_some_iff.mp ranOpening
    dsimp only at last
    split at last
    · rename_i closes
      obtain ⟨_, _, ranEnd, -⟩ := bind_eq_ok_iff.mp last
      right
      rw [Remaining.tokens_of_next? next, endOfText_eq_ok ranEnd, ← closes, ← word]
      rfl
    · obtain ⟨_, -, other⟩ := map_eq_ok_iff.mp last
      cases other

theorem statement?_eq_none
    {remaining rest : Remaining}
    (ran : statement? remaining = .ok (none, rest)) :
    remaining.tokens = [] ∨ remaining.tokens.head?.map Token.lexeme = some (.word "END") :=
  (statement?_closes ran).imp_right fun closing => by
    rw [← List.head?_map, closing, List.head?_cons]

/-- The statements of a source are a row behind which no further one comes. -/
theorem statements_eq_ok_iff {remaining rest : Remaining} {values : List Statement} :
    statements remaining = .ok (values, rest) ↔
      ∃ middle, Row statement? remaining values middle ∧ statement? middle = .ok (none, rest) :=
  many_eq_ok_iff statement?_takes

theorem Row.readsTo
    {remaining rest : Remaining} {values : List Statement}
    (row : Row statement? remaining values rest) :
    remaining.ReadsTo rest := by
  induction row with
  | nil => exact .refl _
  | cons first _ ih => exact (statement?_append first).1.trans ih

/-- Statements are read in the same way if something else than a numeral comes behind them. -/
theorem Row.stays
    {remaining rest : Remaining} {values : List Statement}
    (row : Row statement? remaining values rest)
    {more : List Token}
    (stops : rest.StopsAt (fun lexeme => numeralWord? lexeme = none) more) :
    Row statement? (remaining.append more) values (rest.append more) := by
  induction row with
  | nil => exact .nil _
  | cons first others ih =>
      exact .cons ((statement?_append first).2 more (stops.of_readsTo others.readsTo)) (ih stops)

end Parser

/-! ## Joined sources -/

/-- The word that closes a source comes where one more statement could begin. -/
def HasEnd (text : String) : Prop :=
  ∃ values rest, Parser.Row Parser.statement? (.ofLexemes (lexemesOf text.toList)) values rest ∧
    rest.tokens.head?.map Token.lexeme = some (.word "END")

open Remaining (ofLexemes)

theorem Remaining.append_ofLexemes (first second : List Lexeme) :
    (ofLexemes first).append (second.map fun lexeme => ⟨lexeme, .start⟩) =
      ofLexemes (first ++ second) := by
  rw [ofLexemes, ofLexemes, List.map_append]
  rfl

theorem readLexemes_eq_ok_iff {lexemes : List Lexeme} {values : List Statement} :
    readLexemes lexemes = .ok values ↔
      ∃ middle rest, Parser.Row Parser.statement? (ofLexemes lexemes) values middle ∧
        Parser.statement? middle = .ok (none, rest) := by
  unfold readLexemes
  constructor
  · intro read
    split at read
    · rename_i found rest ran
      cases read
      obtain ⟨middle, row, last⟩ := Parser.statements_eq_ok_iff.mp ran
      exact ⟨middle, rest, row, last⟩
    · cases read
  · rintro ⟨middle, rest, row, last⟩
    rw [Parser.statements_eq_ok_iff.mpr ⟨middle, row, last⟩]

/-- The lexemes of a source that reading comes to the end of are closed. -/
theorem isClosed_of_readsTo
    {lexemes : List Lexeme} {rest : Remaining}
    (reads : (ofLexemes lexemes).ReadsTo rest)
    (empty : rest.tokens = []) :
    ∀ lexeme ∈ lexemes, lexeme.IsClosed := by
  obtain ⟨read, split, closed⟩ := reads
  rw [empty, List.append_nil] at split
  intro lexeme member
  exact closed ⟨lexeme, .start⟩ (split ▸ List.mem_map.mpr ⟨lexeme, member, rfl⟩)

/-- Lexemes are read on behind a row of statements that has taken all in front of them. -/
theorem readLexemes_append
    {first second : List Lexeme} {values others : List Statement} {middle : Remaining}
    (row : Parser.Row Parser.statement? (ofLexemes first) values middle)
    (empty : middle.tokens = [])
    (begins : Past Parser.numeralWord? second)
    (read : readLexemes second = .ok others) :
    readLexemes (first ++ second) = .ok (values ++ others) := by
  obtain ⟨last, rest, rowSecond, ends⟩ := readLexemes_eq_ok_iff.mp read
  have stops : middle.StopsAt (fun lexeme => Parser.numeralWord? lexeme = none)
      (second.map fun lexeme => ⟨lexeme, .start⟩) := by
    intro _ token member
    rw [List.head?_map] at member
    obtain ⟨lexeme, head, rfl⟩ := Option.map_eq_some_iff.mp member
    exact begins lexeme head
  have rowFirst := row.stays stops
  rw [Remaining.append_ofLexemes, Remaining.append_of_tokens_eq_nil empty] at rowFirst
  exact readLexemes_eq_ok_iff.mpr ⟨last, rest, rowFirst.append rowSecond, ends⟩

/-- A word that closes a source is one of its lexemes. -/
theorem HasEnd.mem {text : String} (closed : HasEnd text) :
    .word "END" ∈ lexemesOf text.toList := by
  obtain ⟨values, rest, row, head⟩ := closed
  obtain ⟨read, split, -⟩ := row.readsTo
  obtain ⟨token, first, word⟩ := Option.map_eq_some_iff.mp head
  have member : token ∈ (ofLexemes (lexemesOf text.toList)).tokens := by
    rw [split]
    exact List.mem_append_right _ (List.mem_of_head? first)
  obtain ⟨lexeme, inside, rfl⟩ := List.mem_map.mp member
  exact word ▸ inside

/-- What is read from a text is what is read from its lexemes, but for the places. -/
theorem readLexemes_of_parse
    {text : String} {values : List Statement}
    (read : parse text = .ok values) :
    readLexemes (lexemesOf text.toList) = .ok (values.map Statement.unplaced) := by
  rw [← withoutPlaces_parse, read, withoutPlaces_ok]

theorem exists_parse_of_readLexemes
    {text : String} {values : List Statement}
    (read : readLexemes (lexemesOf text.toList) = .ok values) :
    ∃ placed, parse text = .ok placed ∧ placed.map Statement.unplaced = values := by
  rw [← withoutPlaces_parse] at read
  cases ran : parse text with
  | error error =>
      rw [ran] at read
      cases read
  | ok placed =>
      rw [ran] at read
      exact ⟨placed, rfl, Except.ok.inj read⟩

/--
A source that is not closed, a line break and a source that does not begin with a numeral are a
source, with the statements of the first and behind them those of the second, but for the places.
-/
theorem parse_append_newline
    {first second : String} {values others : List Statement}
    (readFirst : parse first = .ok values)
    (readSecond : parse second = .ok others)
    (unclosed : ¬ HasEnd first)
    (begins : ∀ text, (lexemesOf second.toList).head? = some (.word text) →
      Text.isNumeral text = false) :
    ∃ joined, parse (first ++ "\n" ++ second) = .ok joined ∧
      joined.map Statement.unplaced = (values ++ others).map Statement.unplaced := by
  obtain ⟨middle, rest, row, ends⟩ := readLexemes_eq_ok_iff.mp (readLexemes_of_parse readFirst)
  have empty : middle.tokens = [] :=
    (Parser.statement?_eq_none ends).resolve_right fun head => unclosed ⟨_, middle, row, head⟩
  have closed := isClosed_of_readsTo row.readsTo empty
  have joins : lexemesOf (first ++ "\n" ++ second).toList =
      lexemesOf first.toList ++ lexemesOf second.toList := by
    rw [String.toList_append, String.toList_append, List.append_assoc]
    exact lexemesOf_append closed (by decide) second.toList
  have past : Past Parser.numeralWord? (lexemesOf second.toList) := by
    intro lexeme head
    cases lexeme with
    | word text => simp [Parser.numeralWord?, begins text head]
    | quoted text | unclosed text => rfl
  refine exists_parse_of_readLexemes ?_
  rw [joins, List.map_append]
  exact readLexemes_append row empty past (readLexemes_of_parse readSecond)

/-- A group, and a setting that would take further values. -/
def openSource : String :=
  "DEF_GROUP \"caps\" ENUM GLYPH \"A\" END_ENUM END_GROUP\nGRID_PPEM 20 24"

/-- A setting, a group whose member has the name of a keyword, and the end. -/
def closedSource : String :=
  "CMAP_FORMAT 3\nDEF_GROUP \"odd\" ENUM GLYPH END END_ENUM END_GROUP\nEND"

theorem parse_append_newline_openSource :
    ∃ values others joined, parse openSource = .ok values ∧ parse closedSource = .ok others ∧
      ¬ HasEnd openSource ∧
      (∀ text, (lexemesOf closedSource.toList).head? = some (.word text) →
        Text.isNumeral text = false) ∧
      parse (openSource ++ "\n" ++ closedSource) = .ok joined ∧
      joined.map Statement.unplaced = (values ++ others).map Statement.unplaced := by
  have ends (text : String) (read : (parse text).isOk) : ∃ values, parse text = .ok values := by
    cases ran : parse text with
    | ok values => exact ⟨values, rfl⟩
    | error error =>
        rw [ran] at read
        cases read
  obtain ⟨values, readFirst⟩ := ends openSource (by decide +kernel)
  obtain ⟨others, readSecond⟩ := ends closedSource (by decide +kernel)
  have unclosed : ¬ HasEnd openSource := fun closed => absurd closed.mem (by decide +kernel)
  have head : (lexemesOf closedSource.toList).head? = some (.word "CMAP_FORMAT") := by
    decide +kernel
  have begins : ∀ text, (lexemesOf closedSource.toList).head? = some (.word text) →
      Text.isNumeral text = false := by
    rw [head]
    rintro text ⟨⟩
    decide
  obtain ⟨joined, read, same⟩ := parse_append_newline readFirst readSecond unclosed begins
  exact ⟨values, others, joined, readFirst, readSecond, unclosed, begins, read, same⟩

end Source
end GlyphLayout
