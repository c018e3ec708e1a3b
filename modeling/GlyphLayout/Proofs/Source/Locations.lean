import GlyphLayout.Proofs.Source.Calls
import GlyphLayout.Proofs.Source.Grammar
import GlyphLayout.Proofs.Source.Joining

/-!
# Locations

The line of a token is one more than the number of line feeds in front of it, and its column one
more than the number of characters since the last of them.  So later tokens have later locations,
and so have statements, each of which has the location of the word that opens it.
-/

namespace GlyphLayout
namespace Source

open String (utf8Len)

/-! ## The order of locations -/

namespace Location

/-- A location comes before those in later lines, and before those behind it in its own line. -/
instance : LT Location where
  lt first second :=
    first.line < second.line ∨ first.line = second.line ∧ first.column < second.column

/-- Locations are ordered by lines first, and by columns within a line. -/
theorem lt_def {first second : Location} :
    first < second ↔
      first.line < second.line ∨ first.line = second.line ∧ first.column < second.column :=
  Iff.rfl

theorem lt_trans {first second third : Location} (early : first < second) (late : second < third) :
    first < third := by
  rw [lt_def] at *
  omega

/-- A character leads to a later location, be it on the same line or on the next. -/
theorem lt_next (location : Location) (c : Char) : location < location.next c := by
  rw [lt_def]
  unfold next
  split
  · exact .inl (Nat.lt_succ_self _)
  · exact .inr ⟨rfl, Nat.lt_succ_self _⟩

/-- Every character moves the location on. -/
theorem lt_after (location : Location) {text : List Char} (filled : text ≠ []) :
    location < location.after text := by
  induction text generalizing location with
  | nil => exact absurd rfl filled
  | cons c cs ih =>
      have first := lt_next location c
      cases cs with
      | nil => exact first
      | cons d ds => exact lt_trans first (ih _ (List.cons_ne_nil d ds))

/-- The longer a text, the later its end. -/
theorem start_after_lt
    {front longer : List Char}
    (begins : front <+: longer)
    (differ : front ≠ longer) :
    start.after front < start.after longer := by
  obtain ⟨rest, rfl⟩ := begins
  rw [after_append]
  refine lt_after _ ?_
  rintro rfl
  exact differ (List.append_nil front).symm

end Location

/-- The tokens of a text have later and later locations. -/
theorem pairwise_location_scan (text : List Char) :
    (scan .start text).1.Pairwise fun earlier later => earlier.location < later.location := by
  obtain ⟨spacing, formed, same⟩ := Spacing.exists_wellFormed text
  rw [scan_start formed same, List.pairwise_map]
  refine (pairwise_placed [] spacing.pieces).imp_of_mem fun {earlier later} member _ inside => ?_
  have filled :=
    Spacing.source_ne_nil _ (formed.readable _ (piece_mem_of_mem_placed member))
  -- The earlier lexeme is not empty, and the later one begins behind it.
  have begins : earlier.through <+: later.before := inside.trans (List.prefix_append ..)
  refine Location.start_after_lt (earlier.before_prefix_through.trans begins) fun equal => ?_
  have width := begins.length_le
  rw [← equal, earlier.through_eq, List.length_append] at width
  exact filled (List.length_eq_zero_iff.mp (by omega))

/-! ## Marks of 32 bits -/

/-- The location that a mark stands for. -/
def Mark.location (mark : Mark) : Location :=
  ⟨mark.line.toNat, mark.column.toNat⟩

/-- Below a length of one less than 2 ^ 32 characters, the mark of a place is the place. -/
theorem Location.location_mark
    {text : String} {front : List Char}
    (short : text.length < 2 ^ 32 - 1)
    (inside : front <+: text.toList) :
    (start.after front).mark.location = start.after front := by
  have length := inside.length_le
  rw [String.length_toList] at length
  have lines : front.count '\n' ≤ front.length := List.count_le_length
  have columns := (List.rtakeWhile_suffix isInLine front).length_le
  rw [after_start, mark, Mark.location, Location.mk.injEq]
  have fits {count : Nat} (few : count ≤ front.length) :
      (UInt32.ofNat (1 + count)).toNat = 1 + count :=
    UInt32.toNat_ofNat_of_lt (by simp only [UInt32.size]; omega)
  exact ⟨fits lines, fits columns⟩

namespace Call

/-- The characters in front of the token. -/
def front (text : String) (call : Call) : List Char :=
  (slice text 0 call.first).toList

/-- The token as the parser sees it, if it is not the end of the text. -/
def token? (text : String) (call : Call) : Option Token :=
  (call.lexeme? text).map fun lexeme => ⟨lexeme, call.token.mark.location⟩

/-- The line and the column of the token are those of its first character. -/
structure IsMarked (text : String) (call : Call) : Prop where
  line : call.token.mark.line.toNat = 1 + (call.front text).count '\n'
  column : call.token.mark.column.toNat = 1 + ((call.front text).rtakeWhile isInLine).length

variable {text : String} {call : Call}

/-- In a text that is not too long the marks of 32 bits are the locations themselves. -/
theorem isMarked_of_mark
    {before : List Char}
    (short : text.length < 2 ^ 32 - 1)
    (inside : before <+: text.toList)
    (first : call.first = utf8Len before)
    (mark : call.token.mark = (Location.start.after before).mark) :
    call.IsMarked text := by
  obtain ⟨rest, split⟩ := inside
  have front : call.front text = before := by
    have found := @slice_of_split text [] before rest split.symm
    rw [String.utf8Len_nil, Nat.zero_add] at found
    rw [Call.front, first, found, String.toList_ofList]
  have place := Location.location_mark short ⟨rest, split⟩
  rw [← mark, after_start, Mark.location, Location.mk.injEq] at place
  rw [← front] at place
  exact ⟨place.1, place.2⟩

theorem Reads.isMarked
    {item : Placed}
    (short : text.length < 2 ^ 32 - 1)
    (reads : call.Reads text item) :
    call.IsMarked text :=
  isMarked_of_mark short (item.before_prefix_through.trans reads.inside) reads.first_eq
    (by rw [reads.token, Placed.byteToken])

/-- A token read by a call is the token of its item, mark included. -/
theorem Reads.token?_eq
    {item : Placed}
    (short : text.length < 2 ^ 32 - 1)
    (reads : call.Reads text item) :
    call.token? text = some item.token := by
  have inside := item.before_prefix_through.trans reads.inside
  have mark : call.token.mark = (Location.start.after item.before).mark := by
    rw [reads.token, Placed.byteToken]
  rw [token?, reads.lexeme?_eq, mark, Location.location_mark short inside]
  rfl

theorem Finishes.isMarked
    {front tail : List Char}
    (short : text.length < 2 ^ 32 - 1)
    (finishes : call.Finishes text front tail) :
    call.IsMarked text := by
  refine isMarked_of_mark short (List.prefix_refl _) ?_ (by rw [finishes.token, endToken])
  rw [first, finishes.token, endToken, ← String.utf8ByteSize_ofList, String.ofList_toList]

end Call

/-! ## What a parser gives, whatever it reads -/

namespace Parser

variable {α β : Type}

/-- Whatever the tokens are, the parser gives a value of the given sort, or fails. -/
structure Gives (sort : α → Prop) (parser : Parser α) : Prop where
  fits : ∀ {remaining value rest}, parser remaining = .ok (value, rest) → sort value

theorem Gives.pure {sort : α → Prop} {value : α} (fine : sort value) :
    Gives sort (pure value) := by
  refine ⟨fun ran => ?_⟩
  cases ran
  exact fine

/-- A parser that fails gives nothing. -/
theorem Gives.failAt {sort : α → Prop} (location : Location) (problem : Problem) :
    Gives sort (failAt location problem) :=
  ⟨fun ran => by cases ran⟩

/-- What is given depends on the last of several parsers in a row. -/
theorem Gives.behind
    {sort : β → Prop} {first : Parser α} {next : α → Parser β}
    (last : ∀ value, Gives sort (next value)) :
    Gives sort (first >>= next) := by
  refine ⟨fun ran => ?_⟩
  obtain ⟨value, middle, -, ranNext⟩ := bind_eq_ok_iff.mp ran
  exact (last value).fits ranNext

theorem Gives.map
    {sort : α → Prop} {other : β → Prop} {parser : Parser α} {make : α → β}
    (gives : Gives sort parser)
    (made : ∀ value, sort value → other (make value)) :
    Gives other (make <$> parser) := by
  refine ⟨fun ran => ?_⟩
  obtain ⟨value, ranParser, rfl⟩ := map_eq_ok_iff.mp ran
  exact made value (gives.fits ranParser)

/-! ## The locations of definitions -/

variable (location : Location)

/-- A definition has the location of its opening word. -/
theorem gives_glyph : Gives (fun value => value.location = location) (glyph location) :=
  .behind fun _ => .behind fun _ => .behind fun _ => .behind fun _ => .behind fun _ =>
    .behind fun _ => .behind fun _ => .pure rfl

theorem gives_group : Gives (fun value => value.location = location) (group location) :=
  .behind fun _ => .behind fun _ => .behind fun _ => .pure rfl

theorem gives_script : Gives (fun value => value.location = location) (script location) :=
  .behind fun _ => .behind fun _ => .behind fun _ => .behind fun _ => .behind fun _ => .pure rfl

theorem gives_lookup : Gives (fun value => value.location = location) (lookup location) :=
  .behind fun _ => .behind fun _ => .behind fun _ => .behind fun _ => .pure rfl

theorem gives_anchor : Gives (fun value => value.location = location) (anchor location) :=
  .behind fun _ => .behind fun _ => .behind fun _ => .behind fun _ => .behind fun _ =>
    .behind fun _ => .behind fun _ => .behind fun _ => .behind fun _ => .behind fun _ =>
    .behind fun _ => .pure rfl

theorem gives_setting (name : String) :
    Gives (fun value => value.location = location) (setting name location) := by
  unfold setting
  split
  · exact .behind fun _ => .pure rfl
  · exact .failAt ..

/-- A definition has the location of the word that opens it. -/
theorem gives_statement (opening : String) :
    Gives (fun value => value.location = location) (statement opening location) := by
  unfold statement
  split
  · exact (gives_glyph location).map fun _ same => same
  · exact (gives_group location).map fun _ same => same
  · exact (gives_script location).map fun _ same => same
  · exact (gives_lookup location).map fun _ same => same
  · exact (gives_anchor location).map fun _ same => same
  · exact (gives_setting location _).map fun _ same => same

end Parser

/-! ## The locations of statements -/

/-- The word that opens a statement, where the statement is said to be. -/
def Statement.openingToken (statement : Statement) : Token :=
  ⟨.word statement.opening, statement.location⟩

/-- A statement is read from some tokens, the first of which opens it. -/
structure Statement.ReadFrom (statement : Statement) (tokens : List Token) : Prop where
  opens : tokens.head? = some statement.openingToken
  reads : ∃ behind, Parser.statement? (.ofList (tokens ++ behind)) =
    .ok (some statement, .ofList behind)

namespace Parser

/-- A statement is opened by the first token that is left. -/
theorem statement?_opens
    {remaining rest : Remaining} {value : Statement}
    (ran : statement? remaining = .ok (some value, rest)) :
    remaining.tokens.head? = some value.openingToken := by
  obtain ⟨token, middle, opening, next, word, -, ranStatement⟩ := statement?_eq_some_iff.mp ran
  have location := (gives_statement token.location opening).fits ranStatement
  rw [Remaining.tokens_of_next? next, List.head?_cons, Statement.openingToken, location,
    (statement_stops ranStatement).1, ← word]

/-- A statement is read from a group of tokens at the front of those that are left. -/
theorem statement?_readFrom
    {remaining rest : Remaining} {value : Statement}
    (ran : statement? remaining = .ok (some value, rest)) :
    ∃ group, remaining.tokens = group ++ rest.tokens ∧ value.ReadFrom group := by
  obtain ⟨group, split, -⟩ := (statement?_append ran).1
  refine ⟨group, split, ?_, rest.tokens, ?_⟩
  · -- A statement takes a token, so its group has a first one.
    have filled : group ≠ [] := by
      rintro rfl
      have fewer := statement?_takes ran
      rw [← rest.counted, ← remaining.counted, split] at fewer
      exact absurd fewer (Nat.lt_irrefl _)
    obtain ⟨token, tokens, rfl⟩ := List.exists_cons_of_ne_nil filled
    rw [← statement?_opens ran, split]
    rfl
  · rw [← split, Remaining.ofList_tokens, Remaining.ofList_tokens, ran]

/-- The tokens of a row of statements come in groups, one for each statement. -/
theorem Row.exists_groups
    {remaining rest : Remaining} {values : List Statement}
    (row : Row statement? remaining values rest) :
    ∃ groups, remaining.tokens = groups.flatten ++ rest.tokens ∧
      List.Forall₂ Statement.ReadFrom values groups := by
  induction row with
  | nil => exact ⟨[], rfl, .nil⟩
  | cons first _ ih =>
      obtain ⟨group, split, readFrom⟩ := statement?_readFrom first
      obtain ⟨groups, splitLater, rows⟩ := ih
      refine ⟨group :: groups, ?_, .cons readFrom rows⟩
      rw [split, splitLater, List.flatten_cons, List.append_assoc]

end Parser

/-- The words that open the statements stand one behind the other among the tokens. -/
theorem openingTokens_sublist
    {values : List Statement} {groups : List (List Token)}
    (rows : List.Forall₂ Statement.ReadFrom values groups) :
    (values.map Statement.openingToken).Sublist groups.flatten := by
  induction rows with
  | nil => exact .slnil
  | cons readFrom _ ih =>
      rename_i value group values groups
      obtain ⟨tokens, rfl⟩ := List.head?_eq_some_iff.mp readFrom.opens
      rw [List.map_cons, List.flatten_cons, List.cons_append]
      exact (ih.trans (List.sublist_append_right ..)).cons_cons _

/-- The statements of a source with the tokens that they are read from. -/
structure Located (tokens : List Token) (statements : List Statement) : Prop where
  increasing : statements.Pairwise fun earlier later => earlier.location < later.location
  groups : ∃ groups closing, tokens = groups.flatten ++ closing ∧
    List.Forall₂ Statement.ReadFrom statements groups ∧
    (closing = [] ∨ closing.map Token.lexeme = [.word "END"])

/-- The statements of a text are read from groups of its tokens, one behind the other. -/
theorem located_of_parse
    {text : String} {statements : List Statement}
    (read : parse text = .ok statements) :
    Located (scan .start text.toList).1 statements := by
  obtain ⟨rest, ran⟩ := (parse_eq_ok_iff ..).mp read
  obtain ⟨middle, row, last⟩ := Parser.statements_eq_ok_iff.mp ran
  obtain ⟨groups, split, rows⟩ := row.exists_groups
  refine ⟨?_, groups, middle.tokens, split, rows, Parser.statement?_closes last⟩
  have split : (scan .start text.toList).1 = groups.flatten ++ middle.tokens := split
  have openings : (statements.map Statement.openingToken).Sublist (scan .start text.toList).1 := by
    rw [split]
    exact (openingTokens_sublist rows).trans (List.sublist_append_left ..)
  have later := (pairwise_location_scan text.toList).sublist openings
  rw [List.pairwise_map] at later
  exact later

/-! ## All locations of a text -/

/--
In a text that is short enough for its marks, each token that the cursor comes upon is marked
with its line and column, and these are the tokens that the parser reads.  If it reads a source,
the locations of the statements increase.  Each statement, also one in front of a fault, has the
location of the word that opens it.
-/
theorem locations_increase
    {text : String}
    (short : text.length < 2 ^ 32 - 1) :
    (∃ calls last, Calls text .start calls last ∧
      (∀ call ∈ calls ++ [last], call.IsMarked text) ∧
      calls.map (Call.token? text) = (scan .start text.toList).1.map some) ∧
    (∀ statements, parse text = .ok statements →
      Located (scan .start text.toList).1 statements) ∧
    ∀ remaining statement rest, Parser.statement? remaining = .ok (some statement, rest) →
      remaining.tokens.head? = some statement.openingToken := by
  refine ⟨?_, fun _ => located_of_parse, fun _ _ _ => Parser.statement?_opens⟩
  obtain ⟨spacing, calls, last, formed, same, made, rows, finishes⟩ := exists_calls text
  refine ⟨calls, last, made, fun call member => ?_, ?_⟩
  · rcases List.mem_append.mp member with called | final
    · obtain ⟨item, -, reads⟩ := exists_of_mem_left rows called
      exact reads.isMarked short
    · rw [List.mem_singleton.mp final]
      exact finishes.isMarked short
  · rw [scan_start formed same, List.map_map]
    exact map_eq_map_of_forall₂ rows fun _ _ reads => reads.token?_eq short

/-- A setting, a group whose name goes over two lines, and a setting behind it in its last line. -/
def scatteredSource : String :=
  "GRID_PPEM 20\n DEF_GROUP \"café\ncaps\" END_GROUP CMAP_FORMAT 4"

theorem locations_increase_scattered :
    scatteredSource.length < 2 ^ 32 - 1 ∧
      (∃ calls last, Calls scatteredSource .start calls last ∧
        (∀ call ∈ calls ++ [last], call.IsMarked scatteredSource) ∧
        calls.map (Call.token? scatteredSource) =
          (scan .start scatteredSource.toList).1.map some) ∧
      ∃ statements, parse scatteredSource = .ok statements ∧
        Located (scan .start scatteredSource.toList).1 statements ∧
        statements.map Statement.location = [⟨1, 1⟩, ⟨2, 2⟩, ⟨3, 17⟩] := by
  have short : scatteredSource.length < 2 ^ 32 - 1 := by decide +kernel
  obtain ⟨tokens, located, -⟩ := locations_increase short
  have places : (parse scatteredSource).map (List.map Statement.location) =
      .ok [⟨1, 1⟩, ⟨2, 2⟩, ⟨3, 17⟩] := by
    decide +kernel
  refine ⟨short, tokens, ?_⟩
  cases read : parse scatteredSource with
  | error error =>
      rw [read] at places
      cases places
  | ok statements =>
      rw [read] at places
      exact ⟨statements, rfl, located statements read, Except.ok.inj places⟩

end Source
end GlyphLayout
