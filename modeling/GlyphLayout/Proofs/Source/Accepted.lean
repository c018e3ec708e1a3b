import GlyphLayout.Proofs.Source.WellFormed

/-!
# What parsers read

From tokens as the scanner gives them, each parser reads a well-formed value, and leaves such
tokens again.
-/

namespace GlyphLayout
namespace Source

/-- The lexeme is one that the scanner gives. -/
def Lexeme.Scanned (lexeme : Lexeme) : Prop :=
  lexeme.Complete ∨ ∃ text, lexeme = .unclosed text

/-- The tokens that are left are tokens that the scanner gives. -/
def Remaining.Scanned (remaining : Remaining) : Prop :=
  ∀ token ∈ remaining.tokens, token.lexeme.Scanned

/-- A scanned text is a scanned token with scanned ones behind it. -/
theorem Remaining.Scanned.next
    {remaining rest : Remaining} {token : Token}
    (scanned : remaining.Scanned)
    (found : remaining.next? = some (token, rest)) :
    token.lexeme.Scanned ∧ rest.Scanned := by
  obtain ⟨_ | ⟨first, others⟩, size, counted⟩ := remaining
  · cases found
  · cases found
    exact List.forall_mem_cons.mp scanned

/-- With every token that is read, fewer are left. -/
theorem Remaining.size_next
    {remaining rest : Remaining} {token : Token}
    (found : remaining.next? = some (token, rest)) :
    rest.size < remaining.size := by
  obtain ⟨_ | ⟨first, others⟩, size, rfl⟩ := remaining
  · cases found
  · cases found
    exact Nat.lt_succ_self _

/-- The scanner gives words of word characters only. -/
theorem isWord_of_scanned {text : String} (scanned : (Lexeme.word text).Scanned) : IsWord text := by
  rcases scanned with complete | ⟨_, same⟩
  · exact complete
  · cases same

/-- The scanner ends a string at the first quotation mark. -/
theorem quote_not_mem_of_scanned
    {text : String}
    (scanned : (Lexeme.quoted text).Scanned) :
    '"' ∉ text.toList := by
  rcases scanned with complete | ⟨_, same⟩
  · exact complete
  · cases same

/-- A word holds no quotation mark either. -/
theorem quote_not_mem_of_isWord {text : String} (word : IsWord text) : '"' ∉ text.toList :=
  fun inside => quote_of_isWordChar (word.2 _ inside) rfl

namespace Parser

variable {α β σ : Type}

/-- From scanned tokens, the parser reads a value of the given sort and leaves scanned tokens. -/
structure Yields (sort : α → Prop) (parser : Parser α) : Prop where
  keep : ∀ {remaining value rest}, remaining.Scanned →
    parser remaining = .ok (value, rest) → sort value ∧ rest.Scanned

/-! ## Combinations of parsers -/

/-- What comes out of two parsers in a row. -/
theorem bind_eq_ok_iff
    {first : Parser α} {next : α → Parser β} {remaining rest : Remaining} {value : β} :
    (first >>= next) remaining = .ok (value, rest) ↔
      ∃ found middle, first remaining = .ok (found, middle) ∧
        next found middle = .ok (value, rest) := by
  change (first remaining >>= fun read => next read.1 read.2) = .ok (value, rest) ↔ _
  cases first remaining with
  | error failure => exact ⟨fun ran => (by cases ran), fun ⟨_, _, ran, _⟩ => (by cases ran)⟩
  | ok read =>
      refine ⟨fun ran => ⟨read.1, read.2, rfl, ran⟩, fun ⟨found, middle, same, ran⟩ => ?_⟩
      cases same
      exact ran

/-- What comes out of a parser whose value is made into another. -/
theorem map_eq_ok_iff
    {make : α → β} {parser : Parser α} {remaining rest : Remaining} {value : β} :
    (make <$> parser) remaining = .ok (value, rest) ↔
      ∃ found, parser remaining = .ok (found, rest) ∧ make found = value := by
  rw [map_eq_pure_bind, bind_eq_ok_iff]
  constructor
  · rintro ⟨found, middle, ran, last⟩
    cases last
    exact ⟨found, ran, rfl⟩
  · rintro ⟨found, ran, rfl⟩
    exact ⟨found, rest, ran, rfl⟩

theorem Yields.pure {sort : α → Prop} {value : α} (fine : sort value) :
    Yields sort (pure value) := by
  refine ⟨fun scanned ran => ?_⟩
  cases ran
  exact ⟨fine, scanned⟩

/-- A parser yields every wider sort of values as well. -/
theorem Yields.imp
    {sort other : α → Prop} {parser : Parser α}
    (yields : Yields sort parser)
    (weaker : ∀ value, sort value → other value) :
    Yields other parser := by
  refine ⟨fun scanned ran => ?_⟩
  obtain ⟨fine, kept⟩ := yields.keep scanned ran
  exact ⟨weaker _ fine, kept⟩

theorem Yields.failAt {sort : α → Prop} (location : Location) (problem : Problem) :
    Yields sort (failAt location problem) :=
  ⟨fun _ ran => by cases ran⟩

/-- One parser after the other yields what the second yields from values of the first. -/
theorem Yields.bind
    {sort : α → Prop} {later : β → Prop} {first : Parser α} {next : α → Parser β}
    (head : Yields sort first)
    (tail : ∀ value, sort value → Yields later (next value)) :
    Yields later (first >>= next) := by
  refine ⟨fun scanned ran => ?_⟩
  obtain ⟨value, middle, ranFirst, ranNext⟩ := bind_eq_ok_iff.mp ran
  obtain ⟨fine, kept⟩ := head.keep scanned ranFirst
  exact (tail value fine).keep kept ranNext

theorem Yields.map
    {sort : α → Prop} {later : β → Prop} {parser : Parser α} {make : α → β}
    (head : Yields sort parser)
    (made : ∀ value, sort value → later (make value)) :
    Yields later (make <$> parser) := by
  rw [map_eq_pure_bind]
  exact head.bind fun value fine => .pure (made value fine)

/-- A token that has to be there is taken for what its lexeme is read as. -/
theorem Yields.take
    {sort : α → Prop} {read : Lexeme → Option α}
    (reads : ∀ lexeme value, lexeme.Scanned → read lexeme = some value → sort value)
    (problem : Option Lexeme → Problem) :
    Yields (fun found => sort found.1) (take read problem) := by
  refine ⟨fun scanned ran => ?_⟩
  unfold Parser.take at ran
  split at ran
  · cases ran
  · rename_i token rest found
    obtain ⟨first, kept⟩ := scanned.next found
    split at ran
    · rename_i value taken
      cases ran
      exact ⟨reads _ _ first taken, kept⟩
    · cases ran

/-- A token that may be there is taken for what its lexeme is read as, if it is taken. -/
theorem Yields.take?
    {sort : α → Prop} {read : Lexeme → Option α}
    (reads : ∀ lexeme value, lexeme.Scanned → read lexeme = some value → sort value) :
    Yields (fun found => ∀ taken ∈ found, sort taken.1) (take? read) := by
  refine ⟨fun scanned ran => ?_⟩
  unfold Parser.take? at ran
  split at ran
  · cases ran
    exact ⟨by simp, scanned⟩
  · rename_i token rest found
    obtain ⟨first, kept⟩ := scanned.next found
    split at ran
    · rename_i value taken
      cases ran
      exact ⟨by simpa using reads _ _ first taken, kept⟩
    · cases ran
      exact ⟨by simp, scanned⟩

/--
What holds of a state and the tokens that are left, and is kept by each step, leads to what
holds at the end.  A step that takes no token is the last one.
-/
theorem iterate_invariant
    {step : σ → Parser (Option σ)}
    (holds done : σ → Remaining → Prop)
    (goesOn : ∀ {state remaining next rest}, holds state remaining →
      step state remaining = .ok (some next, rest) → holds next rest)
    (stops : ∀ {state remaining rest}, holds state remaining →
      step state remaining = .ok (none, rest) → done state rest)
    (stays : ∀ {state remaining next rest}, holds state remaining →
      step state remaining = .ok (some next, rest) → ¬ rest.size < remaining.size →
      done next rest)
    {state result : σ} {remaining rest : Remaining}
    (start : holds state remaining)
    (ran : iterate step state remaining = .ok (result, rest)) :
    done result rest := by
  induction state, remaining using iterate.induct step with
  | case1 state remaining failure failed =>
      rw [iterate, failed] at ran
      cases ran
  | case2 state remaining left stopped =>
      rw [iterate, stopped] at ran
      cases ran
      exact stops start stopped
  | case3 state remaining next left stepped less ih =>
      rw [iterate, stepped] at ran
      exact ih (goesOn start stepped) (by simpa [less] using ran)
  | case4 state remaining next left stepped notLess =>
      rw [iterate, stepped] at ran
      simp only [notLess, if_false] at ran
      cases ran
      exact stays start stepped notLess

/-- A sort that each step keeps is kept by the repetition. -/
theorem Yields.iterate
    {sort : σ → Prop} {step : σ → Parser (Option σ)} {state : σ}
    (each : ∀ state, sort state → Yields (fun found => ∀ next ∈ found, sort next) (step state))
    (start : sort state) :
    Yields sort (iterate step state) := by
  refine ⟨fun scanned ran => ?_⟩
  refine iterate_invariant (fun state remaining => sort state ∧ remaining.Scanned)
    (fun state remaining => sort state ∧ remaining.Scanned)
    (fun {state _ next _} holds ran => ?_) (fun {state _ _} holds ran => ?_)
    (fun {state _ next _} holds ran _ => ?_) ⟨start, scanned⟩ ran
  · have kept := (each state holds.1).keep holds.2 ran
    exact ⟨kept.1 next rfl, kept.2⟩
  · exact ⟨holds.1, ((each state holds.1).keep holds.2 ran).2⟩
  · have kept := (each state holds.1).keep holds.2 ran
    exact ⟨kept.1 next rfl, kept.2⟩

/-- The items of a list are of the sort of each item. -/
theorem Yields.many
    {sort : α → Prop} {item : Parser (Option α)}
    (each : Yields (fun found => ∀ value ∈ found, sort value) item) :
    Yields (fun values => ∀ value ∈ values, sort value) (many item) := by
  have gathered : Yields (fun found => ∀ value ∈ found, sort value)
      (Parser.iterate (fun found => do return (← item).map (· :: found)) []) := by
    refine .iterate (fun found fine => each.bind fun value new => .pure ?_) (by simp)
    cases value with
    | none => simp
    | some value => simpa [new] using fine
  exact gathered.bind fun found fine => .pure (by simpa using fine)

/-! ## Tokens and tags -/

/-- The text can be quoted. -/
abbrev Quotable (text : String) : Prop :=
  '"' ∉ text.toList

theorem yields_keyword (mark : String) : Yields (fun _ => True) (keyword mark) :=
  .bind (.take (fun _ _ _ _ => trivial) _) fun _ _ => .pure trivial

theorem yields_keyword? (mark : String) : Yields (fun _ => True) (keyword? mark) :=
  .bind (.take? (fun _ _ _ _ => trivial)) fun _ _ => .pure trivial

theorem yields_word (what : String) (read : String → Option α) :
    Yields (fun _ => True) (word what read) :=
  .bind (.take (fun _ _ _ _ => trivial) _) fun _ _ => .pure trivial

/-- What was quoted can be quoted again. -/
theorem yields_quotedWithPlace : Yields (fun found => Quotable found.1) quotedWithPlace := by
  refine .take (fun lexeme text scanned found => ?_) _
  cases lexeme with
  | quoted inner =>
      cases found
      exact quote_not_mem_of_scanned scanned
  | word _ => cases found
  | unclosed _ => cases found

theorem yields_quoted : Yields Quotable quoted :=
  yields_quotedWithPlace.bind fun _ clean => .pure clean

theorem yields_name : Yields Quotable name := by
  refine .bind (.take (fun lexeme text scanned found => ?_) _)
    fun found (clean : Quotable found.1) => .pure clean
  cases lexeme with
  | word inner =>
      cases found
      exact quote_not_mem_of_isWord (isWord_of_scanned scanned)
  | quoted inner =>
      cases found
      exact quote_not_mem_of_scanned scanned
  | unclosed _ => cases found

/-- A tag that is read from a text has no other characters than the text and spaces. -/
theorem quotable_of_ofString
    {text : String} {tag : Tag}
    (clean : Quotable text)
    (read : Tag.ofString text = .ok tag) :
    Quotable tag.padded := by
  have name : tag.name.toList = text.toList.takeWhile isTagChar := by
    unfold Tag.ofString Tag.ofChars at read
    split at read
    · cases read
    · split at read
      · split at read
        · cases read
          exact String.toList_ofList
        · cases read
      · cases read
  intro inside
  rw [Tag.padded, String.toList_append, String.toList_ofList, List.mem_append, name] at inside
  rcases inside with inName | padding
  · exact clean ((List.takeWhile_prefix isTagChar).subset inName)
  · exact absurd (List.eq_of_mem_replicate padding) (by decide)

/-- A tag that was read can be quoted, spaces included. -/
theorem yields_tag : Yields (fun tag => Quotable tag.padded) tag := by
  refine yields_quotedWithPlace.bind fun found clean => ?_
  dsimp only
  split
  · rename_i read
    exact .pure (quotable_of_ofString clean read)
  · exact .failAt ..

/-! ## Coverages -/

/-- A coverage can be quoted if each of its items can. -/
theorem unquoted_coverage_iff (items : Coverage) :
    Unquoted (coverageLexemes items) ↔ ∀ item ∈ items, Unquoted item.lexemes := by
  induction items with
  | nil => simp [coverageLexemes]
  | cons item items ih => simp [coverageLexemes, ih]

@[simp] theorem unquoted_coverage_reverse (items : Coverage) :
    Unquoted (coverageLexemes items.reverse) ↔ Unquoted (coverageLexemes items) := by
  simp [unquoted_coverage_iff]

@[simp] theorem unquoted_coveragesAfter (mark : String) (coverages : List Coverage) :
    Unquoted (coveragesAfter mark coverages) ↔
      ∀ items ∈ coverages, Unquoted (coverageLexemes items) := by
  simp [coveragesAfter]

/-- No name that has been read so far holds a quotation mark. -/
structure OpenCoverage.Clean (state : OpenCoverage) : Prop where
  outer : ∀ items ∈ state.outer, Unquoted (coverageLexemes items)
  items : Unquoted (coverageLexemes state.items)

/-- An item that can be quoted keeps an open coverage so. -/
theorem OpenCoverage.Clean.push
    {state : OpenCoverage}
    (clean : state.Clean)
    {item : CoverageItem}
    (new : Unquoted item.lexemes) :
    (state.push item).Clean :=
  ⟨clean.outer, by simp [OpenCoverage.push, coverageLexemes, new, clean.items]⟩

/-- A step keeps an open coverage such that it can be quoted, at every level. -/
theorem yields_coverageStep {state : OpenCoverage} (clean : state.Clean) :
    Yields (fun found => ∀ next ∈ found, next.Clean) (coverageStep state) := by
  refine .bind (.take? (fun _ _ _ _ => trivial)) fun found _ => ?_
  rcases found with _ | ⟨word, location⟩
  · dsimp only
    split
    · exact .pure (by simp)
    · rename_i items outer same
      obtain ⟨first, others⟩ := List.forall_mem_cons.mp (same ▸ clean.outer)
      refine .bind (yields_keyword _) fun _ _ => .pure ?_
      rintro next ⟨⟩
      exact ⟨others, by simp [coverageLexemes, CoverageItem.lexemes, first, clean.items]⟩
  · cases word with
    | glyph =>
        refine yields_name.bind fun name quotable => .pure ?_
        rintro next ⟨⟩
        exact clean.push (by simp [CoverageItem.lexemes, quotable])
    | group =>
        refine yields_name.bind fun name quotable => .pure ?_
        rintro next ⟨⟩
        exact clean.push (by simp [CoverageItem.lexemes, quotable])
    | range =>
        refine yields_name.bind fun first quotable => ?_
        refine (yields_keyword _).bind fun _ _ => ?_
        refine yields_name.bind fun last lastQuotable => .pure ?_
        rintro next ⟨⟩
        exact clean.push (by simp [CoverageItem.lexemes, quotable, lastQuotable])
    | enumeration =>
        refine .pure ?_
        rintro next ⟨⟩
        exact ⟨List.forall_mem_cons.mpr ⟨clean.items, clean.outer⟩, unquoted_nil⟩

/-- The names in a coverage are quoted texts, so they can be quoted again. -/
theorem yields_coverage : Yields (fun items => Unquoted (coverageLexemes items)) coverage := by
  have start : OpenCoverage.Clean ⟨[], []⟩ := ⟨by simp, unquoted_nil⟩
  refine .bind (.iterate (fun _ clean => yields_coverageStep clean) start) fun state clean => ?_
  exact .pure ((unquoted_coverage_reverse _).mpr clean.items)

/-! ## Placements -/

@[simp] theorem unquoted_value
    (mark : String)
    (devices : List DeviceAdjustment)
    (value : Option Int16) :
    Unquoted (valueLexemes mark devices value) := by
  cases value <;> simp [valueLexemes, deviceLexemes]

/-- A placement is written without quoted texts. -/
@[simp] theorem unquoted_placement (value : Placement) : Unquoted value.lexemes := by
  simp [Placement.lexemes]

theorem yields_device? : Yields (fun _ => True) device? := by
  refine (yields_keyword? _).bind fun found _ => ?_
  cases found with
  | false => exact .pure trivial
  | true =>
      refine (yields_word ..).bind fun _ _ => ?_
      refine (yields_keyword _).bind fun _ _ => ?_
      exact (yields_word ..).bind fun _ _ => .pure trivial

/-- Without a value, no device adjustments are read. -/
theorem yields_value? (mark what : String) :
    Yields (fun read => read.1 = none → read.2 = []) (value? mark what) := by
  refine (yields_keyword? _).bind fun found _ => ?_
  cases found with
  | false => exact .pure fun _ => rfl
  | true =>
      refine (yields_word ..).bind fun value _ => ?_
      have devices := Yields.many (yields_device?.imp fun _ _ _ _ => trivial)
      exact devices.bind fun _ _ => .pure (by simp)

/-- Adjustments for devices are read only behind the value that they adjust. -/
theorem yields_placement : Yields Placement.WellFormed placement := by
  refine (yields_keyword _).bind fun _ _ => ?_
  refine (yields_value? ..).bind fun _ advance => ?_
  refine (yields_value? ..).bind fun _ dx => ?_
  refine (yields_value? ..).bind fun _ dy => ?_
  exact (yields_keyword _).bind fun _ _ => .pure ⟨advance, dx, dy⟩

/-! ## Positionings -/

theorem yields_coverageAfter? (mark : String) :
    Yields (fun found => ∀ items ∈ found, Unquoted (coverageLexemes items))
      (coverageAfter? mark) := by
  refine (yields_keyword? _).bind fun found _ => ?_
  cases found with
  | false => exact .pure (by simp)
  | true => exact yields_coverage.bind fun items clean => .pure (by simpa using clean)

theorem yields_numeral? (what : String) (read : String → Option α) :
    Yields (fun _ => True) (numeral? what read) := by
  refine .bind (.take? (fun _ _ _ _ => trivial)) fun found _ => ?_
  rcases found with _ | ⟨text, location⟩
  · exact .pure trivial
  · dsimp only
    split
    · exact .pure trivial
    · exact .failAt ..

/-- Both placements of a pair are well-formed. -/
theorem yields_pair? :
    Yields (fun found => ∀ pair ∈ found,
      pair.firstPlacement.WellFormed ∧ pair.secondPlacement.WellFormed) pair? := by
  refine (yields_numeral? ..).bind fun found _ => ?_
  cases found with
  | none => exact .pure (by simp)
  | some first =>
      refine (yields_word ..).bind fun _ _ => ?_
      refine (yields_keyword _).bind fun _ _ => ?_
      refine yields_placement.bind fun _ formed => ?_
      exact yields_placement.bind fun _ secondFormed => .pure (by simp [formed, secondFormed])

theorem yields_single? :
    Yields (fun found => ∀ single ∈ found,
      single.2.WellFormed ∧ Unquoted (singleLexemes single)) single? := by
  refine (yields_keyword? _).bind fun found _ => ?_
  cases found with
  | true => exact .pure (by simp)
  | false =>
      refine yields_coverage.bind fun items clean => ?_
      refine (yields_keyword _).bind fun _ _ => ?_
      exact yields_placement.bind fun _ formed =>
        .pure (by simp [singleLexemes, formed, clean])

theorem yields_attached? :
    Yields (fun found => ∀ attached ∈ found, Unquoted (attachedLexemes attached)) attached? := by
  refine (yields_keyword? _).bind fun found _ => ?_
  cases found with
  | true => exact .pure (by simp)
  | false =>
      refine yields_coverage.bind fun items clean => ?_
      refine (yields_keyword _).bind fun _ _ => ?_
      refine (yields_keyword _).bind fun _ _ => ?_
      exact yields_quoted.bind fun _ quotable =>
        .pure (by simp [attachedLexemes, clean, quotable])

/-- No name in the coverages on two sides holds a quotation mark. -/
def CleanSides (sides : List Coverage × List Coverage) : Prop :=
  (∀ items ∈ sides.1, Unquoted (coverageLexemes items)) ∧
    ∀ items ∈ sides.2, Unquoted (coverageLexemes items)

/-- Each side that is gathered can be quoted. -/
theorem yields_gatherStep
    (word : Lexeme → Option Bool)
    {sides : List Coverage × List Coverage}
    (clean : CleanSides sides) :
    Yields (fun found => ∀ next ∈ found, CleanSides next) (gatherStep word sides) := by
  refine .bind (.take? (fun _ _ _ _ => trivial)) fun found _ => ?_
  rcases found with _ | ⟨_ | _, location⟩
  · exact .pure (by simp)
  · refine yields_coverage.bind fun items new => .pure ?_
    rintro next ⟨⟩
    exact ⟨clean.1, List.forall_mem_cons.mpr ⟨new, clean.2⟩⟩
  · refine yields_coverage.bind fun items new => .pure ?_
    rintro next ⟨⟩
    exact ⟨List.forall_mem_cons.mpr ⟨new, clean.1⟩, clean.2⟩

/-- Each kind of positioning is read as a well-formed one. -/
theorem yields_positioningOf (kind : PositioningWord) :
    Yields (fun value => value.WellFormed ∧ Unquoted value.lexemes) (positioningOf kind) := by
  cases kind with
  | attach =>
      refine yields_coverage.bind fun bases clean => ?_
      refine (yields_keyword _).bind fun _ _ => ?_
      exact yields_attached?.many.bind fun marks attached =>
        .pure ⟨trivial, by simpa [Positioning.lexemes, clean] using attached⟩
  | cursive =>
      have start : CleanSides ([], []) := by simp [CleanSides]
      refine .bind (.iterate (fun _ => yields_gatherStep joinWord?) start) fun joins clean => ?_
      exact (yields_keyword _).bind fun _ _ =>
        .pure ⟨trivial, by simpa [Positioning.lexemes, CleanSides] using clean⟩
  | pairs =>
      refine (yields_coverageAfter? _).many.bind fun first firstClean => ?_
      refine (yields_coverageAfter? _).many.bind fun second secondClean => ?_
      refine yields_pair?.many.bind fun pairs formed => ?_
      refine (yields_keyword _).bind fun _ _ => .pure ⟨formed, ?_⟩
      simpa [Positioning.lexemes, PairAdjustment.lexemes] using And.intro firstClean secondClean
  | singles =>
      refine yields_single?.many.bind fun adjustments formed => .pure ?_
      refine ⟨fun single member => (formed single member).1, ?_⟩
      simpa [Positioning.lexemes] using fun single member => (formed single member).2

theorem yields_positioning :
    Yields (fun value => value.WellFormed ∧ Unquoted value.lexemes) positioning := by
  refine (yields_word ..).bind fun kind _ => ?_
  refine (yields_positioningOf kind).bind fun value formed => ?_
  exact (yields_keyword _).bind fun _ _ => .pure formed

end Parser
end Source
end GlyphLayout
