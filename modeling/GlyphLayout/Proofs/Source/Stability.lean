import GlyphLayout.Proofs.Source.AcceptedStatements

/-!
# What stands behind does not matter

A parser looks at one token at a time.  What it has read stays read when more tokens come behind
those that it has left.  Only where it has left none may it have wanted to go on, so that the
first of the new tokens must be one at which it stops.
-/

namespace GlyphLayout
namespace Source

/-- The lexeme is no string without an end. -/
def Lexeme.IsClosed : Lexeme → Prop
  | unclosed _ => False
  | _ => True

namespace Remaining

/-- The tokens that are left, with more behind them. -/
def append (remaining : Remaining) (more : List Token) : Remaining :=
  .ofList (remaining.tokens ++ more)

@[simp] theorem tokens_append (remaining : Remaining) (more : List Token) :
    (remaining.append more).tokens = remaining.tokens ++ more := rfl

@[simp] theorem size_append (remaining : Remaining) (more : List Token) :
    (remaining.append more).size = remaining.size + more.length := by
  rw [← remaining.counted]
  exact List.length_append

/-- Behind the end of a text, the new tokens are all that is left. -/
theorem append_of_tokens_eq_nil
    {remaining : Remaining}
    (empty : remaining.tokens = [])
    (more : List Token) :
    remaining.append more = .ofList more := by
  rw [append, empty, List.nil_append]

theorem tokens_of_next?
    {remaining rest : Remaining} {token : Token}
    (found : remaining.next? = some (token, rest)) :
    remaining.tokens = token :: rest.tokens := by
  obtain ⟨_ | ⟨first, others⟩, size, counted⟩ := remaining
  · cases found
  · cases found
    rfl

theorem tokens_eq_nil_of_next? {remaining : Remaining} (last : remaining.next? = none) :
    remaining.tokens = [] := by
  obtain ⟨_ | ⟨first, others⟩, size, counted⟩ := remaining
  · rfl
  · cases last

/-- More tokens behind a token do not change which one comes next. -/
theorem next?_append
    {remaining rest : Remaining} {token : Token}
    (found : remaining.next? = some (token, rest))
    (more : List Token) :
    (remaining.append more).next? = some (token, rest.append more) := by
  rw [append, tokens_of_next? found]
  rfl

/-- From the first tokens on, closed ones have been read up to the second. -/
def ReadsTo (remaining rest : Remaining) : Prop :=
  ∃ read, remaining.tokens = read ++ rest.tokens ∧ ∀ token ∈ read, token.lexeme.IsClosed

theorem ReadsTo.refl (remaining : Remaining) : remaining.ReadsTo remaining :=
  ⟨[], rfl, by simp⟩

theorem ReadsTo.trans
    {remaining middle rest : Remaining}
    (early : remaining.ReadsTo middle)
    (late : middle.ReadsTo rest) :
    remaining.ReadsTo rest := by
  obtain ⟨first, split, closedFirst⟩ := early
  obtain ⟨second, splitLate, closedSecond⟩ := late
  refine ⟨first ++ second, by rw [split, splitLate, List.append_assoc], fun token member => ?_⟩
  exact (List.mem_append.mp member).elim (closedFirst token) (closedSecond token)

/-- A closed token has been read when the tokens behind it are left. -/
theorem ReadsTo.next
    {remaining rest : Remaining} {token : Token}
    (found : remaining.next? = some (token, rest))
    (closed : token.lexeme.IsClosed) :
    remaining.ReadsTo rest :=
  ⟨[token], tokens_of_next? found, by simpa using closed⟩

/-- Nothing is left in the end if nothing was left before. -/
theorem ReadsTo.tokens_eq_nil
    {remaining rest : Remaining}
    (reads : remaining.ReadsTo rest)
    (empty : remaining.tokens = []) :
    rest.tokens = [] := by
  obtain ⟨read, same, -⟩ := reads
  exact (List.append_eq_nil_iff.mp (same.symm.trans empty)).2

/-- Tokens are left, or the first of those to come is one at which reading stops. -/
def StopsAt (stop : Lexeme → Prop) (rest : Remaining) (more : List Token) : Prop :=
  rest.tokens = [] → ∀ token ∈ more.head?, stop token.lexeme

/-- What stops behind the tokens left later stops behind those left before. -/
theorem StopsAt.of_readsTo
    {stop : Lexeme → Prop} {middle rest : Remaining} {more : List Token}
    (stops : rest.StopsAt stop more)
    (reads : middle.ReadsTo rest) :
    middle.StopsAt stop more :=
  fun empty => stops (reads.tokens_eq_nil empty)

end Remaining

namespace Parser

variable {α β σ : Type} {stop : Lexeme → Prop}

/--
What the parser reads is closed, and is read in the same way if more tokens come behind, as long
as a token is left or the first of the new ones is one at which the parser stops.
-/
structure Stable (stop : Lexeme → Prop) (parser : Parser α) : Prop where
  reads : ∀ {remaining value rest}, parser remaining = .ok (value, rest) →
    remaining.ReadsTo rest
  stays : ∀ {remaining value rest more}, parser remaining = .ok (value, rest) →
    rest.StopsAt stop more → parser (remaining.append more) = .ok (value, rest.append more)

/-- The parser may look for a further token behind the last one that it reads. -/
abbrev Local (parser : Parser α) : Prop :=
  Stable (fun _ => False) parser

/-- The parser ends with a token that has to be there, behind which it does not look. -/
structure Ends (parser : Parser α) : Prop extends Stable (fun _ => True) parser where
  takes : ∀ {remaining value rest}, parser remaining = .ok (value, rest) →
    remaining.tokens ≠ []

/-! ## Combinations of parsers -/

/-- A parser that is stable for some lexemes to come is stable for fewer of them. -/
theorem Stable.imp
    {other : Lexeme → Prop} {parser : Parser α}
    (stable : Stable stop parser)
    (stronger : ∀ lexeme, other lexeme → stop lexeme) :
    Stable other parser :=
  ⟨stable.reads, fun ran stops =>
    stable.stays ran fun empty token first => stronger _ (stops empty token first)⟩

/-- With nothing known of what comes behind, a token has to be left. -/
theorem Stable.isLocal {parser : Parser α} (stable : Stable stop parser) : Local parser :=
  stable.imp fun _ => False.elim

/-- Behind its last token any lexeme may come. -/
theorem Ends.stable {parser : Parser α} (ends : Ends parser) : Stable stop parser :=
  ends.toStable.imp fun _ _ => trivial

theorem Stable.pure (value : α) : Stable stop (pure value) := by
  refine ⟨fun ran => ?_, fun ran _ => ?_⟩
  · cases ran
    exact .refl _
  · cases ran
    rfl

/-- A parser that fails has read nothing. -/
theorem Stable.failAt (location : Location) (problem : Problem) :
    Stable stop (failAt location problem : Parser α) :=
  ⟨fun ran => (by cases ran), fun ran => (by cases ran)⟩

/-- Two parsers after each other are stable if both are. -/
theorem Stable.bind
    {first : Parser α} {next : α → Parser β}
    (head : Stable stop first)
    (tail : ∀ value, Stable stop (next value)) :
    Stable stop (first >>= next) := by
  refine ⟨fun ran => ?_, fun ran stops => ?_⟩
  · obtain ⟨value, middle, ranFirst, ranNext⟩ := bind_eq_ok_iff.mp ran
    exact (head.reads ranFirst).trans ((tail value).reads ranNext)
  · obtain ⟨value, middle, ranFirst, ranNext⟩ := bind_eq_ok_iff.mp ran
    have stopsEarlier := stops.of_readsTo ((tail value).reads ranNext)
    exact bind_eq_ok_iff.mpr
      ⟨value, _, head.stays ranFirst stopsEarlier, (tail value).stays ranNext stops⟩

theorem Stable.map {parser : Parser α} (make : α → β) (stable : Stable stop parser) :
    Stable stop (make <$> parser) := by
  rw [map_eq_pure_bind]
  exact stable.bind fun _ => .pure _

/-- A parser that ends with a token leaves one to the parser in front of it. -/
theorem Ends.bind
    {first : Parser α} {next : α → Parser β}
    (head : Stable stop first)
    (tail : ∀ value, Ends (next value)) :
    Ends (first >>= next) := by
  refine ⟨⟨(head.isLocal.bind fun value => (tail value).stable).reads, fun ran _ => ?_⟩,
    fun ran empty => ?_⟩
  · obtain ⟨value, middle, ranFirst, ranNext⟩ := bind_eq_ok_iff.mp ran
    refine bind_eq_ok_iff.mpr ⟨value, _, head.stays ranFirst fun empty => ?_,
      (tail value).stays ranNext fun _ _ _ => trivial⟩
    exact absurd empty ((tail value).takes ranNext)
  · obtain ⟨value, middle, ranFirst, ranNext⟩ := bind_eq_ok_iff.mp ran
    exact (tail value).takes ranNext ((head.reads ranFirst).tokens_eq_nil empty)

/-- Behind the last token only the result is made. -/
theorem Ends.make
    {first : Parser α} {next : α → Parser β}
    (head : Ends first)
    (tail : ∀ value, Stable (fun _ => True) (next value)) :
    Ends (first >>= next) := by
  refine ⟨head.toStable.bind tail, fun ran => ?_⟩
  obtain ⟨value, middle, ranFirst, -⟩ := bind_eq_ok_iff.mp ran
  exact head.takes ranFirst

theorem Ends.map {parser : Parser α} (make : α → β) (ends : Ends parser) :
    Ends (make <$> parser) := by
  rw [map_eq_pure_bind]
  exact ends.make fun _ => .pure _

theorem Ends.failAt (location : Location) (problem : Problem) :
    Ends (failAt location problem : Parser α) :=
  ⟨.failAt .., fun ran => by cases ran⟩

/-! ## Tokens -/

/-- The reader of single lexemes takes no string without an end. -/
def Refuses (read : Lexeme → Option α) : Prop :=
  ∀ text, read (.unclosed text) = none

/-- A token that is taken is closed, since a string without an end is refused. -/
theorem Refuses.isClosed
    {read : Lexeme → Option α} {lexeme : Lexeme} {value : α}
    (refuses : Refuses read)
    (found : read lexeme = some value) :
    lexeme.IsClosed := by
  cases lexeme with
  | unclosed text =>
      rw [refuses text] at found
      cases found
  | word text => trivial
  | quoted text => trivial

/-- To take a token is to read the one that comes next. -/
theorem take_eq_ok_iff
    {read : Lexeme → Option α} {problem : Option Lexeme → Problem} {remaining rest : Remaining}
    {found : α × Location} :
    take read problem remaining = .ok (found, rest) ↔
      ∃ token, remaining.next? = some (token, rest) ∧ read token.lexeme = some found.1 ∧
        found.2 = token.location := by
  obtain ⟨value, location⟩ := found
  unfold take
  cases next : remaining.next? with
  | none => simp
  | some pair =>
      obtain ⟨token, later⟩ := pair
      cases taken : read token.lexeme with
      | none => simp [taken]
      | some other =>
          simp only [taken, Except.ok.injEq, Prod.mk.injEq, Option.some.injEq]
          constructor
          · rintro ⟨⟨rfl, rfl⟩, rfl⟩
            exact ⟨token, ⟨rfl, rfl⟩, taken, rfl⟩
          · rintro ⟨_, ⟨rfl, rfl⟩, same, rfl⟩
            cases taken.symm.trans same
            exact ⟨⟨rfl, rfl⟩, rfl⟩

/-- A token that has to be there is the last one that its parser looks at. -/
theorem Ends.take
    {read : Lexeme → Option α}
    (refuses : Refuses read)
    (problem : Option Lexeme → Problem) :
    Ends (take read problem) := by
  refine ⟨⟨fun ran => ?_, fun ran _ => ?_⟩, fun ran => ?_⟩
  · obtain ⟨token, next, found, -⟩ := take_eq_ok_iff.mp ran
    exact .next next (refuses.isClosed found)
  · obtain ⟨token, next, found, place⟩ := take_eq_ok_iff.mp ran
    exact take_eq_ok_iff.mpr ⟨token, Remaining.next?_append next _, found, place⟩
  · obtain ⟨token, next, -⟩ := take_eq_ok_iff.mp ran
    simp [Remaining.tokens_of_next? next]

/-- Nothing is taken where the reader stops, and at the end. -/
theorem Stable.take? {read : Lexeme → Option α} (refuses : Refuses read) :
    Stable (fun lexeme => read lexeme = none) (take? read) := by
  refine ⟨fun {remaining found rest} ran => ?_, fun {remaining found rest more} ran stops => ?_⟩
  · cases found with
    | none =>
        obtain ⟨rfl, -⟩ := take?_eq_none ran
        exact .refl _
    | some found =>
        obtain ⟨token, next, taken⟩ := take?_eq_some ran
        exact .next next (refuses.isClosed taken)
  · cases next : remaining.next? with
    | none =>
        have empty := Remaining.tokens_eq_nil_of_next? next
        simp only [Parser.take?, next] at ran
        cases ran
        cases more with
        | nil =>
            rw [Remaining.append_of_tokens_eq_nil empty]
            rfl
        | cons token more =>
            have stopped := stops empty token rfl
            simp [Parser.take?, Remaining.append_of_tokens_eq_nil empty, stopped]
    | some pair =>
        obtain ⟨token, later⟩ := pair
        simp only [Parser.take?, next] at ran
        simp only [Parser.take?, Remaining.next?_append next]
        cases taken : read token.lexeme with
        | none =>
            simp only [taken] at ran ⊢
            cases ran
            rfl
        | some value =>
            simp only [taken] at ran ⊢
            cases ran
            rfl

theorem refuses_isKeyword (mark : String) : Refuses (isKeyword mark) :=
  fun _ => rfl

/-- A string without an end is no word. -/
theorem refuses_ofWord (read : String → Option α) : Refuses (ofWord read) :=
  fun _ => rfl

theorem ends_keyword (mark : String) : Ends (keyword mark) :=
  .make (.take (refuses_isKeyword mark) _) fun _ => .pure _

theorem local_keyword? (mark : String) : Local (keyword? mark) :=
  .bind (Stable.take? (refuses_isKeyword mark)).isLocal fun _ => .pure _

theorem ends_quotedWithPlace : Ends quotedWithPlace :=
  .take (fun _ => rfl) _

theorem ends_quoted : Ends quoted :=
  ends_quotedWithPlace.make fun _ => .pure _

theorem ends_name : Ends name :=
  .make (.take (fun _ => rfl) _) fun _ => .pure _

theorem ends_word (what : String) (read : String → Option α) : Ends (word what read) :=
  .make (.take (refuses_ofWord read) _) fun _ => .pure _

/-- A tag is a string that has to be there. -/
theorem ends_tag : Ends tag := by
  refine ends_quotedWithPlace.make fun found => ?_
  dsimp only
  split
  · exact .pure _
  · exact .failAt ..

/-! ## Repetitions -/

/-- A repetition is read in the same way if each of its steps is. -/
theorem Stable.iterate
    {step : σ → Parser (Option σ)}
    (each : ∀ state, Stable stop (step state))
    (state : σ) :
    Stable stop (Parser.iterate step state) := by
  suffices both : ∀ {remaining result rest},
      Parser.iterate step state remaining = .ok (result, rest) → remaining.ReadsTo rest ∧
        ∀ more, rest.StopsAt stop more →
          Parser.iterate step state (remaining.append more) = .ok (result, rest.append more) from
    ⟨fun ran => (both ran).1, fun ran stops => (both ran).2 _ stops⟩
  intro remaining result rest ran
  induction state, remaining using Parser.iterate.induct step with
  | case1 state remaining failure failed =>
      rw [Parser.iterate, failed] at ran
      cases ran
  | case2 state remaining left stopped =>
      rw [Parser.iterate, stopped] at ran
      cases ran
      refine ⟨(each _).reads stopped, fun more stops => ?_⟩
      rw [Parser.iterate, (each _).stays stopped stops]
  | case3 state remaining next left stepped less ih =>
      rw [Parser.iterate, stepped] at ran
      simp only [less, if_true] at ran
      obtain ⟨reads, stays⟩ := ih ran
      refine ⟨((each state).reads stepped).trans reads, fun more stops => ?_⟩
      have shorter : (left.append more).size < (remaining.append more).size := by
        simpa using less
      rw [Parser.iterate, (each state).stays stepped (stops.of_readsTo reads)]
      simp only [shorter, if_true]
      exact stays more stops
  | case4 state remaining next left stepped notLess =>
      rw [Parser.iterate, stepped] at ran
      simp only [notLess, if_false] at ran
      cases ran
      refine ⟨(each state).reads stepped, fun more stops => ?_⟩
      have notShorter : ¬ (rest.append more).size < (remaining.append more).size := by
        simpa using notLess
      rw [Parser.iterate, (each state).stays stepped stops]
      simp only [notShorter, if_false]

/-- A repetition stops where a further item does. -/
theorem Stable.many {item : Parser (Option α)} (each : Stable stop item) :
    Stable stop (many item) :=
  .bind (.iterate (fun _ => each.bind fun _ => .pure _) _) fun _ => .pure _

/-! ## Coverages -/

theorem local_coverageStep (state : OpenCoverage) : Local (coverageStep state) := by
  have refuses : Refuses itemWord? := fun _ => rfl
  refine .bind (Stable.take? refuses).isLocal fun found => ?_
  rcases found with _ | ⟨word, location⟩
  · dsimp only
    split
    · exact .pure _
    · exact (ends_keyword _).stable.bind fun _ => .pure _
  · cases word with
    | glyph => exact ends_name.stable.bind fun _ => .pure _
    | group => exact ends_name.stable.bind fun _ => .pure _
    | range =>
        refine ends_name.stable.bind fun _ => ?_
        refine (ends_keyword _).stable.bind fun _ => ?_
        exact ends_name.stable.bind fun _ => .pure _
    | enumeration => exact .pure _

/-- A coverage ends where no item follows, so the token behind it is looked at. -/
theorem local_coverage : Local coverage :=
  .bind (.iterate local_coverageStep _) fun _ => .pure _

/-! ## Lookups -/

theorem local_markFilter : Local markFilter := by
  have refuses : Refuses markWord? := fun _ => rfl
  refine .bind (Stable.take? refuses).isLocal fun found => ?_
  rcases found with _ | ⟨_ | filter, location⟩
  · exact .pure _
  · exact ends_quoted.stable.bind fun _ => .pure _
  · exact .pure _

theorem local_optionStep (options : LookupOptions) : Local (optionStep options) := by
  have refuses : Refuses optionWord? := fun _ => rfl
  refine .bind (Stable.take? refuses).isLocal fun found => ?_
  rcases found with _ | ⟨word, location⟩
  · exact .pure _
  · cases word with
    | processBase | skipBase | skipMarks | reversal => exact .pure _
    | processMarks => exact local_markFilter.bind fun _ => .pure _
    | direction => exact (ends_word ..).stable.bind fun _ => .pure _
    | comments => exact ends_quoted.stable.bind fun _ => .pure _

/-- Sides are gathered one coverage at a time, and the word behind them is looked at. -/
theorem local_gatherStep
    {word : Lexeme → Option Bool}
    (refuses : Refuses word)
    (sides : List Coverage × List Coverage) :
    Local (gatherStep word sides) := by
  refine .bind (Stable.take? refuses).isLocal fun found => ?_
  rcases found with _ | ⟨_ | _, location⟩
  · exact .pure _
  · exact local_coverage.bind fun _ => .pure _
  · exact local_coverage.bind fun _ => .pure _

theorem local_contextStep (contexts : List ContextDefinition) : Local (contextStep contexts) := by
  have refuses : Refuses contextWord? := fun _ => rfl
  have sides : Refuses sideWord? := fun _ => rfl
  refine .bind (Stable.take? refuses).isLocal fun found => ?_
  rcases found with _ | ⟨kind, location⟩
  · exact .pure _
  · refine .bind (.iterate (local_gatherStep sides) _) fun _ => ?_
    refine (ends_keyword _).stable.bind fun _ => ?_
    split
    · exact .pure _
    · exact .pure _

theorem local_mapping? : Local mapping? := by
  refine .bind (Stable.take? (refuses_isKeyword _)).isLocal fun found => ?_
  rcases found with _ | ⟨_, location⟩
  · exact .pure _
  · refine local_coverage.bind fun _ => ?_
    refine (ends_keyword _).stable.bind fun _ => ?_
    refine local_coverage.bind fun _ => ?_
    exact (ends_keyword _).stable.bind fun _ => .pure _

/-- A substitution ends with its closing word. -/
theorem ends_substitution (reversal : Bool) (location : Location) :
    Ends (substitution reversal location) := by
  refine .bind local_mapping?.many fun mappings => ?_
  refine (ends_keyword _).make fun _ => ?_
  split
  · exact .pure _
  · exact .failAt ..

theorem local_device? : Local device? := by
  refine (local_keyword? _).bind fun found => ?_
  cases found with
  | false => exact .pure _
  | true =>
      refine (ends_word ..).stable.bind fun _ => ?_
      refine (ends_keyword _).stable.bind fun _ => ?_
      exact (ends_word ..).stable.bind fun _ => .pure _

theorem local_value? (mark what : String) : Local (value? mark what) := by
  refine (local_keyword? _).bind fun found => ?_
  cases found with
  | false => exact .pure _
  | true =>
      refine (ends_word ..).stable.bind fun _ => ?_
      exact local_device?.many.bind fun _ => .pure _

/-- A placement ends with its closing word. -/
theorem ends_placement : Ends placement := by
  refine .bind (ends_keyword _).toStable fun _ => ?_
  refine .bind (local_value? ..) fun _ => ?_
  refine .bind (local_value? ..) fun _ => ?_
  refine .bind (local_value? ..) fun _ => ?_
  exact (ends_keyword _).make fun _ => .pure _

theorem local_coverageAfter? (mark : String) : Local (coverageAfter? mark) := by
  refine (local_keyword? _).bind fun found => ?_
  cases found with
  | false => exact .pure _
  | true => exact local_coverage.bind fun _ => .pure _

/-- The numerals of a list end at a lexeme that is no numeral. -/
theorem stable_numeral? (what : String) (read : String → Option α) :
    Stable (fun lexeme => numeralWord? lexeme = none) (numeral? what read) := by
  have refuses : Refuses numeralWord? := fun _ => rfl
  refine .bind (.take? refuses) fun found => ?_
  rcases found with _ | ⟨text, location⟩
  · exact .pure _
  · dsimp only
    split
    · exact .pure _
    · exact .failAt ..

/-- A pair may be missing, in which case the token that stands there is left. -/
theorem local_pair? : Local pair? := by
  refine (stable_numeral? ..).isLocal.bind fun found => ?_
  cases found with
  | none => exact .pure _
  | some first =>
      refine (ends_word ..).stable.bind fun _ => ?_
      refine (ends_keyword _).stable.bind fun _ => ?_
      refine ends_placement.stable.bind fun _ => ?_
      exact ends_placement.stable.bind fun _ => .pure _

theorem local_single? : Local single? := by
  refine (local_keyword? _).bind fun found => ?_
  cases found with
  | true => exact .pure _
  | false =>
      refine local_coverage.bind fun _ => ?_
      refine (ends_keyword _).stable.bind fun _ => ?_
      exact ends_placement.stable.bind fun _ => .pure _

theorem local_attached? : Local attached? := by
  refine (local_keyword? _).bind fun found => ?_
  cases found with
  | true => exact .pure _
  | false =>
      refine local_coverage.bind fun _ => ?_
      refine (ends_keyword _).stable.bind fun _ => ?_
      refine (ends_keyword _).stable.bind fun _ => ?_
      exact ends_quoted.stable.bind fun _ => .pure _

/-- What belongs to a kind of positioning may go on until its closing word. -/
theorem local_positioningOf (kind : PositioningWord) : Local (positioningOf kind) := by
  cases kind with
  | attach =>
      refine local_coverage.bind fun _ => ?_
      refine (ends_keyword _).stable.bind fun _ => ?_
      exact local_attached?.many.bind fun _ => .pure _
  | cursive =>
      have joins : Refuses joinWord? := fun _ => rfl
      refine .bind (.iterate (local_gatherStep joins) _) fun _ => ?_
      exact (ends_keyword _).stable.bind fun _ => .pure _
  | pairs =>
      refine (local_coverageAfter? _).many.bind fun _ => ?_
      refine (local_coverageAfter? _).many.bind fun _ => ?_
      refine local_pair?.many.bind fun _ => ?_
      exact (ends_keyword _).stable.bind fun _ => .pure _
  | singles => exact local_single?.many.bind fun _ => .pure _

theorem ends_positioning : Ends positioning := by
  refine .bind (ends_word ..).toStable fun kind => ?_
  refine .bind (local_positioningOf kind) fun _ => ?_
  exact (ends_keyword _).make fun _ => .pure _

theorem ends_payload (reversal : Bool) : Ends (payload reversal) := by
  have refuses : Refuses payloadWord? := fun _ => rfl
  refine .bind (Ends.take refuses _).toStable fun found => ?_
  rcases found with ⟨_ | _, location⟩
  · exact ends_positioning.make fun _ => .pure _
  · exact (ends_substitution reversal location).make fun _ => .pure _

/-- A lookup ends with its payload, whose closing word has to be there. -/
theorem ends_lookup (location : Location) : Ends (lookup location) := by
  refine .bind ends_quoted.toStable fun _ => ?_
  refine .bind (.iterate local_optionStep _) fun options => ?_
  refine .bind (.iterate local_contextStep _) fun _ => ?_
  exact (ends_payload options.reversal).make fun _ => .pure _

/-! ## Other definitions -/

/-- Code points may be missing from the definition of a glyph. -/
theorem local_glyphCodePoints : Local glyphCodePoints := by
  have refuses : Refuses codePointWord? := fun _ => rfl
  refine .bind (Stable.take? refuses).isLocal fun found => ?_
  rcases found with _ | ⟨_ | _, location⟩
  · exact .pure _
  · refine ends_quotedWithPlace.stable.bind fun found => ?_
    dsimp only
    split
    · exact .pure _
    · exact .failAt ..
  · exact (ends_word ..).stable.bind fun _ => .pure _

/-- A part behind a mark ends where it does, but the mark may be missing. -/
theorem Ends.optional {part : Parser α} (mark : String) (ends : Ends part) :
    Local (optional mark part) := by
  refine (local_keyword? mark).bind fun found => ?_
  cases found with
  | false => exact .pure _
  | true => exact ends.stable.bind fun _ => .pure _

theorem ends_glyph (location : Location) : Ends (glyph location) := by
  refine .bind ends_quoted.toStable fun _ => ?_
  refine .bind (ends_keyword _).toStable fun _ => ?_
  refine .bind (ends_word ..).toStable fun _ => ?_
  refine .bind local_glyphCodePoints fun _ => ?_
  refine .bind ((ends_word ..).optional _) fun _ => ?_
  refine .bind ((ends_word ..).optional _) fun _ => ?_
  exact (ends_keyword _).make fun _ => .pure _

theorem ends_group (location : Location) : Ends (group location) := by
  refine .bind ends_quoted.toStable fun _ => ?_
  refine .bind (Ends.optional _ ?_) fun _ => ?_
  · refine .bind local_coverage fun _ => ?_
    exact (ends_keyword _).make fun _ => .pure _
  · exact (ends_keyword _).make fun _ => .pure _

theorem local_feature? : Local feature? := by
  refine .bind (Stable.take? (refuses_isKeyword _)).isLocal fun found => ?_
  rcases found with _ | ⟨_, location⟩
  · exact .pure _
  · refine (ends_quoted.optional _).bind fun _ => ?_
    refine (ends_keyword _).stable.bind fun _ => ?_
    refine ends_tag.stable.bind fun _ => ?_
    refine (ends_quoted.optional _).many.bind fun _ => ?_
    exact (ends_keyword _).stable.bind fun _ => .pure _

theorem local_language? : Local language? := by
  refine .bind (Stable.take? (refuses_isKeyword _)).isLocal fun found => ?_
  rcases found with _ | ⟨_, location⟩
  · exact .pure _
  · refine (ends_quoted.optional _).bind fun _ => ?_
    refine (ends_keyword _).stable.bind fun _ => ?_
    refine ends_tag.stable.bind fun _ => ?_
    refine local_feature?.many.bind fun _ => ?_
    exact (ends_keyword _).stable.bind fun _ => .pure _

/-- A script ends with its closing word, behind all its languages. -/
theorem ends_script (location : Location) : Ends (script location) := by
  refine .bind (ends_quoted.optional _) fun _ => ?_
  refine .bind (ends_keyword _).toStable fun _ => ?_
  refine .bind ends_tag.toStable fun _ => ?_
  refine .bind local_language?.many fun _ => ?_
  exact (ends_keyword _).make fun _ => .pure _

theorem ends_anchor (location : Location) : Ends (anchor location) := by
  refine .bind ends_quoted.toStable fun _ => ?_
  refine .bind (ends_keyword _).toStable fun _ => ?_
  refine .bind (ends_word ..).toStable fun _ => ?_
  refine .bind (ends_keyword _).toStable fun _ => ?_
  refine .bind ends_name.toStable fun _ => ?_
  refine .bind (ends_keyword _).toStable fun _ => ?_
  refine .bind (ends_word ..).toStable fun _ => ?_
  refine .bind (local_keyword? _) fun _ => ?_
  refine .bind (ends_keyword _).toStable fun _ => ?_
  refine .bind ends_placement.toStable fun _ => ?_
  exact (ends_keyword _).make fun _ => .pure _

/-- The values of a setting end at a lexeme that is no numeral. -/
theorem stable_setting (name : String) (location : Location) :
    Stable (fun lexeme => numeralWord? lexeme = none) (setting name location) := by
  unfold setting
  split
  · exact (stable_numeral? ..).many.bind fun _ => .pure _
  · exact .failAt ..

/-! ## Statements -/

/-- A statement ends at a lexeme that is no numeral, whichever statement it is. -/
theorem stable_statement (opening : String) (location : Location) :
    Stable (fun lexeme => numeralWord? lexeme = none) (statement opening location) := by
  unfold statement
  split
  · exact ((ends_glyph location).map _).stable
  · exact ((ends_group location).map _).stable
  · exact ((ends_script location).map _).stable
  · exact ((ends_lookup location).map _).stable
  · exact ((ends_anchor location).map _).stable
  · exact (stable_setting opening location).map _

end Parser
end Source
end GlyphLayout
