import GlyphLayout.Source.Parsing.Statement

/-!
# Places do not matter

A parser looks at lexemes and passes places on.  So it reads the same from tokens whose places
have been left out, but for the places in what it reads and in its failures.
-/

namespace GlyphLayout
namespace Source

/-! ## Leaving out places -/

/-- The token at the start of a text. -/
def Token.unplaced (token : Token) : Token :=
  { token with location := .start }

/-- The tokens that are left, all at the start of a text. -/
def Remaining.unplaced (remaining : Remaining) : Remaining :=
  .ofList (remaining.tokens.map Token.unplaced)

/-- The failure, at the start of a text unless it is behind all tokens. -/
def Failure.unplaced (failure : Failure) : Failure :=
  { failure with place := failure.place.map fun _ => .start }

def Mapping.unplaced (mapping : Mapping) : Mapping :=
  { mapping with location := .start }

def Substitution.unplaced (substitution : Substitution) : Substitution :=
  { substitution with
    mappings := substitution.mappings.map Mapping.unplaced
    location := .start }

def Payload.unplaced : Payload → Payload
  | substitution value => substitution value.unplaced
  | positioning value => positioning value

def LookupDefinition.unplaced (lookup : LookupDefinition) : LookupDefinition :=
  { lookup with payload := lookup.payload.unplaced, location := .start }

def GlyphDefinition.unplaced (glyph : GlyphDefinition) : GlyphDefinition :=
  { glyph with location := .start }

def GroupDefinition.unplaced (group : GroupDefinition) : GroupDefinition :=
  { group with location := .start }

def FeatureDefinition.unplaced (feature : FeatureDefinition) : FeatureDefinition :=
  { feature with location := .start }

def LanguageDefinition.unplaced (language : LanguageDefinition) : LanguageDefinition :=
  { language with
    features := language.features.map FeatureDefinition.unplaced
    location := .start }

def ScriptDefinition.unplaced (script : ScriptDefinition) : ScriptDefinition :=
  { script with
    languages := script.languages.map LanguageDefinition.unplaced
    location := .start }

def AnchorDefinition.unplaced (anchor : AnchorDefinition) : AnchorDefinition :=
  { anchor with location := .start }

def Setting.unplaced (setting : Setting) : Setting :=
  { setting with location := .start }

/-- The statement with all its places at the start of a text. -/
def Statement.unplaced : Statement → Statement
  | glyph definition => glyph definition.unplaced
  | group definition => group definition.unplaced
  | script definition => script definition.unplaced
  | lookup definition => lookup definition.unplaced
  | anchor definition => anchor definition.unplaced
  | setting definition => setting definition.unplaced

/-- The next token is the same but for its place. -/
theorem Remaining.next?_unplaced (remaining : Remaining) :
    remaining.unplaced.next? =
      remaining.next?.map fun next => (next.1.unplaced, next.2.unplaced) := by
  obtain ⟨_ | ⟨token, rest⟩, size, rfl⟩ := remaining <;> rfl

@[simp] theorem Remaining.size_unplaced (remaining : Remaining) :
    remaining.unplaced.size = remaining.size := by
  obtain ⟨tokens, size, rfl⟩ := remaining
  simp [unplaced, ofList]

namespace Parser

variable {α β γ δ σ τ : Type}

/-- What a parser comes to, without places. -/
def unplacedResult (erase : α → β) :
    Except Failure (α × Remaining) → Except Failure (β × Remaining)
  | .ok (value, rest) => .ok (erase value, rest.unplaced)
  | .error failure => .error failure.unplaced

/--
From tokens without places, the second parser comes to what the first comes to, without
places; `erase` takes the places out of what has been read.
-/
structure Erases (erase : α → β) (first : Parser α) (second : Parser β) : Prop where
  agree : ∀ remaining : Remaining,
    second remaining.unplaced = unplacedResult erase (first remaining)

/-- The parser reads nothing that has a place. -/
abbrev PlaceFree (parser : Parser α) : Prop :=
  Erases id parser parser

/-- A value without the place at which it was read. -/
def forget (found : α × Location) : α × Location :=
  (found.1, .start)

/-! ## Combinations of parsers -/

theorem Erases.pure (erase : α → β) (value : α) :
    Erases erase (pure value) (pure (erase value)) :=
  ⟨fun _ => rfl⟩

theorem Erases.failAt (erase : α → β) (location : Location) (problem : Problem) :
    Erases erase (failAt location problem) (failAt .start problem) :=
  ⟨fun _ => rfl⟩

/-- One parser after the other leaves out places if both do, whatever has been read first. -/
theorem Erases.bind
    {erase : α → β}
    {eraseLater : γ → δ}
    {first : Parser α}
    {second : Parser β}
    {next : α → Parser γ}
    {after : β → Parser δ}
    (head : Erases erase first second)
    (tail : ∀ value, Erases eraseLater (next value) (after (erase value))) :
    Erases eraseLater (first >>= next) (second >>= after) := by
  refine ⟨fun remaining => ?_⟩
  change (second remaining.unplaced >>= fun read => after read.1 read.2) =
    unplacedResult eraseLater (first remaining >>= fun read => next read.1 read.2)
  rw [head.agree]
  cases first remaining with
  | error failure => rfl
  | ok read => exact (tail read.1).agree read.2

/-- What is made of a value may have a place only where the value has one. -/
theorem Erases.map
    {erase : α → β}
    {eraseLater : γ → δ}
    {first : Parser α}
    {second : Parser β}
    {make : α → γ}
    {build : β → δ}
    (head : Erases erase first second)
    (agree : ∀ value, build (erase value) = eraseLater (make value)) :
    Erases eraseLater (make <$> first) (build <$> second) := by
  refine ⟨fun remaining => ?_⟩
  change (second remaining.unplaced >>= fun read => .ok (build read.1, read.2)) =
    unplacedResult eraseLater (first remaining >>= fun read => .ok (make read.1, read.2))
  rw [head.agree]
  cases first remaining with
  | error failure => rfl
  | ok read => exact congrArg (fun value => Except.ok (value, read.2.unplaced)) (agree read.1)

/-- A token is taken by its lexeme, so its place matters neither for this nor for a failure. -/
theorem Erases.take (read : Lexeme → Option α) (problem : Option Lexeme → Problem) :
    Erases forget (take read problem) (take read problem) := by
  refine ⟨fun remaining => ?_⟩
  unfold Parser.take
  rw [remaining.next?_unplaced]
  cases remaining.next? with
  | none => rfl
  | some next =>
      simp only [Option.map_some, Token.unplaced]
      cases read next.1.lexeme <;> rfl

theorem Erases.take? (read : Lexeme → Option α) :
    Erases (Option.map forget) (take? read) (take? read) := by
  refine ⟨fun remaining => ?_⟩
  unfold Parser.take?
  rw [remaining.next?_unplaced]
  cases remaining.next? with
  | none => rfl
  | some next =>
      simp only [Option.map_some, Token.unplaced]
      cases read next.1.lexeme <;> rfl

/-- A repetition reads the same if each of its steps does. -/
theorem Erases.iterate
    (erase : σ → τ)
    {first : σ → Parser (Option σ)}
    {second : τ → Parser (Option τ)}
    (step : ∀ state, Erases (Option.map erase) (first state) (second (erase state)))
    (state : σ) :
    Erases erase (Parser.iterate first state) (Parser.iterate second (erase state)) := by
  refine ⟨fun remaining => ?_⟩
  induction state, remaining using Parser.iterate.induct first with
  | case1 state remaining failure failed =>
      rw [Parser.iterate, Parser.iterate, (step state).agree, failed]
      rfl
  | case2 state remaining rest stopped =>
      rw [Parser.iterate, Parser.iterate, (step state).agree, stopped]
      rfl
  | case3 state remaining next rest stepped less ih =>
      rw [Parser.iterate, Parser.iterate, (step state).agree, stepped]
      simp only [unplacedResult, Option.map_some, Remaining.size_unplaced, less, if_true]
      exact ih
  | case4 state remaining next rest stepped notLess =>
      rw [Parser.iterate, Parser.iterate, (step state).agree, stepped]
      simp only [unplacedResult, Option.map_some, Remaining.size_unplaced, notLess, if_false]

/-- Steps that read nothing with a place are repeated as often without places. -/
theorem PlaceFree.iterate
    {step : σ → Parser (Option σ)}
    (each : ∀ state, PlaceFree (step state))
    (state : σ) :
    PlaceFree (Parser.iterate step state) := by
  refine Erases.iterate id (fun state => ?_) state
  rw [Option.map_id]
  exact each state

/-- A list reads the same if each of its items does. -/
theorem Erases.many
    {erase : α → β}
    {first : Parser (Option α)}
    {second : Parser (Option β)}
    (item : Erases (Option.map erase) first second) :
    Erases (List.map erase) (many first) (many second) := by
  refine .bind (.iterate (List.map erase) (fun found => ?_) []) fun found => ?_
  · refine item.bind fun value => ?_
    cases value <;> exact .pure _ _
  · rw [← List.map_reverse]
    exact .pure _ _

theorem PlaceFree.many {item : Parser (Option α)} (each : PlaceFree item) :
    PlaceFree (many item) := by
  have lists : Erases (List.map id) (Parser.many item) (Parser.many item) := by
    refine .many ?_
    rw [Option.map_id]
    exact each
  rwa [List.map_id_fun] at lists

/-! ## Tokens, tags and coverages -/

theorem placeFree_keyword (text : String) : PlaceFree (keyword text) :=
  Erases.bind (.take ..) fun _ => .pure id ()

theorem placeFree_keyword? (text : String) : PlaceFree (keyword? text) := by
  refine Erases.bind (.take? _) fun found => ?_
  rw [Option.isSome_map]
  exact .pure id _

/-- A quoted text is the same, and only its place is left out. -/
theorem erases_quotedWithPlace : Erases forget quotedWithPlace quotedWithPlace :=
  .take ..

theorem placeFree_quoted : PlaceFree quoted :=
  erases_quotedWithPlace.bind fun found => .pure id found.1

theorem placeFree_name : PlaceFree name :=
  Erases.bind (.take ..) fun found => .pure id found.1

theorem placeFree_word (what : String) (read : String → Option α) : PlaceFree (word what read) :=
  Erases.bind (.take ..) fun found => .pure id found.1

/-- A tag fails at its own place, which a failure without places leaves out. -/
theorem placeFree_tag : PlaceFree tag := by
  refine erases_quotedWithPlace.bind fun found => ?_
  dsimp only [forget]
  split
  · exact .pure id _
  · exact .failAt ..

/-- The step of a coverage depends on the open lists and the next lexeme alone. -/
theorem placeFree_coverageStep (state : OpenCoverage) : PlaceFree (coverageStep state) := by
  refine Erases.bind (.take? _) fun found => ?_
  rcases found with _ | ⟨word, location⟩
  · dsimp only [Option.map_none]
    split
    · exact .pure id _
    · exact Erases.bind (placeFree_keyword _) fun _ => .pure id _
  · cases word with
    | glyph => exact Erases.bind placeFree_name fun _ => .pure id _
    | group => exact Erases.bind placeFree_name fun _ => .pure id _
    | range =>
        refine Erases.bind placeFree_name fun _ => ?_
        refine Erases.bind (placeFree_keyword _) fun _ => ?_
        exact Erases.bind placeFree_name fun _ => .pure id _
    | enumeration => exact .pure id _

theorem placeFree_coverage : PlaceFree coverage :=
  Erases.bind (PlaceFree.iterate placeFree_coverageStep _) fun _ => .pure id _

/-- A part behind a keyword reads the same if the part does. -/
theorem Erases.optional
    {erase : α → β}
    {first : Parser α}
    {second : Parser β}
    (mark : String)
    (part : Erases erase first second) :
    Erases (Option.map erase) (optional mark first) (optional mark second) := by
  refine .bind (placeFree_keyword? mark) fun found => ?_
  cases found with
  | false => exact .pure _ none
  | true => exact part.bind fun value => .pure (Option.map erase) (some value)

/-- An optional part is there or not by its keyword. -/
theorem PlaceFree.optional
    {part : Parser α}
    (mark : String)
    (each : PlaceFree part) :
    PlaceFree (optional mark part) := by
  have parts := Erases.optional mark each
  rwa [Option.map_id] at parts

/-! ## Lookups -/

theorem placeFree_markFilter : PlaceFree markFilter := by
  refine Erases.bind (.take? _) fun found => ?_
  rcases found with _ | ⟨_ | filter, location⟩
  · exact .pure id _
  · exact Erases.bind placeFree_quoted fun _ => .pure id _
  · exact .pure id _

/-- Each option of a lookup is read without regard to places. -/
theorem placeFree_optionStep (options : LookupOptions) : PlaceFree (optionStep options) := by
  refine Erases.bind (.take? _) fun found => ?_
  rcases found with _ | ⟨word, location⟩
  · exact .pure id _
  · cases word with
    | processBase => exact .pure id _
    | skipBase => exact .pure id _
    | processMarks => exact Erases.bind placeFree_markFilter fun _ => .pure id _
    | skipMarks => exact .pure id _
    | direction => exact Erases.bind (placeFree_word ..) fun _ => .pure id _
    | reversal => exact .pure id _
    | comments => exact Erases.bind placeFree_quoted fun _ => .pure id _

/-- The sides of a context, and the exits and entries of a join, are coverages and so without
places. -/
theorem placeFree_gatherStep
    (word : Lexeme → Option Bool)
    (sides : List Coverage × List Coverage) :
    PlaceFree (gatherStep word sides) := by
  refine Erases.bind (.take? _) fun found => ?_
  rcases found with _ | ⟨_ | _, location⟩
  · exact .pure id _
  · exact Erases.bind placeFree_coverage fun _ => .pure id _
  · exact Erases.bind placeFree_coverage fun _ => .pure id _

theorem placeFree_contextStep (contexts : List ContextDefinition) :
    PlaceFree (contextStep contexts) := by
  refine Erases.bind (.take? _) fun found => ?_
  rcases found with _ | ⟨kind, location⟩
  · exact .pure id _
  · refine Erases.bind (PlaceFree.iterate (placeFree_gatherStep sideWord?) _) fun sides => ?_
    refine Erases.bind (placeFree_keyword _) fun _ => ?_
    dsimp only [id_eq]
    split
    · exact .pure id _
    · exact .pure id _

/-- A mapping has a place of its own, at its keyword. -/
theorem erases_mapping? : Erases (Option.map Mapping.unplaced) mapping? mapping? := by
  refine .bind (.take? _) fun found => ?_
  rcases found with _ | ⟨_, location⟩
  · exact .pure _ none
  · refine .bind placeFree_coverage fun input => ?_
    refine .bind (placeFree_keyword _) fun _ => ?_
    refine .bind placeFree_coverage fun output => ?_
    exact .bind (placeFree_keyword _) fun _ =>
      .pure (Option.map Mapping.unplaced) (some ⟨input, output, location⟩)

/-- The shape of a substitution depends on no place. -/
theorem ofMappings?_unplaced (reversal : Bool) (mappings : List Mapping) :
    SubstitutionKind.ofMappings? reversal (mappings.map Mapping.unplaced) =
      SubstitutionKind.ofMappings? reversal mappings := by
  have inputs : (mappings.map Mapping.unplaced).map Mapping.input =
      mappings.map Mapping.input := by
    rw [List.map_map]
    rfl
  have outputs : (mappings.map Mapping.unplaced).map Mapping.output =
      mappings.map Mapping.output := by
    rw [List.map_map]
    rfl
  rw [SubstitutionKind.ofMappings?, SubstitutionKind.ofMappings?, inputs, outputs]

/-- A substitution has the place of its keyword, which its kind does not depend on. -/
theorem erases_substitution (reversal : Bool) (location : Location) :
    Erases Substitution.unplaced (substitution reversal location)
      (substitution reversal .start) := by
  refine .bind (.many erases_mapping?) fun mappings => ?_
  refine .bind (placeFree_keyword _) fun _ => ?_
  rw [ofMappings?_unplaced]
  split
  · exact .pure Substitution.unplaced ⟨_, mappings, location⟩
  · exact .failAt ..

theorem placeFree_device? : PlaceFree device? := by
  refine Erases.bind (placeFree_keyword? _) fun found => ?_
  cases found with
  | false => exact .pure id _
  | true =>
      refine Erases.bind (placeFree_word ..) fun _ => ?_
      refine Erases.bind (placeFree_keyword _) fun _ => ?_
      exact Erases.bind (placeFree_word ..) fun _ => .pure id _

theorem placeFree_value? (mark what : String) : PlaceFree (value? mark what) := by
  refine Erases.bind (placeFree_keyword? _) fun found => ?_
  cases found with
  | false => exact .pure id _
  | true =>
      refine Erases.bind (placeFree_word ..) fun _ => ?_
      exact Erases.bind (PlaceFree.many placeFree_device?) fun _ => .pure id _

theorem placeFree_placement : PlaceFree placement := by
  refine Erases.bind (placeFree_keyword _) fun _ => ?_
  refine Erases.bind (placeFree_value? ..) fun _ => ?_
  refine Erases.bind (placeFree_value? ..) fun _ => ?_
  refine Erases.bind (placeFree_value? ..) fun _ => ?_
  exact Erases.bind (placeFree_keyword _) fun _ => .pure id _

theorem placeFree_coverageAfter? (mark : String) : PlaceFree (coverageAfter? mark) := by
  refine Erases.bind (placeFree_keyword? _) fun found => ?_
  cases found with
  | false => exact .pure id _
  | true => exact Erases.bind placeFree_coverage fun _ => .pure id _

/-- The fault of a numeral that cannot be read does not say where it stands. -/
theorem placeFree_numeral? (what : String) (read : String → Option α) :
    PlaceFree (numeral? what read) := by
  refine Erases.bind (.take? _) fun found => ?_
  rcases found with _ | ⟨text, location⟩
  · exact .pure id _
  · dsimp only [Option.map_some, forget]
    split
    · exact .pure id _
    · exact .failAt ..

theorem placeFree_pair? : PlaceFree pair? := by
  refine Erases.bind (placeFree_numeral? ..) fun found => ?_
  cases found with
  | none => exact .pure id _
  | some first =>
      refine Erases.bind (placeFree_word ..) fun _ => ?_
      refine Erases.bind (placeFree_keyword _) fun _ => ?_
      refine Erases.bind placeFree_placement fun _ => ?_
      exact Erases.bind placeFree_placement fun _ => .pure id _

theorem placeFree_single? : PlaceFree single? := by
  refine Erases.bind (placeFree_keyword? _) fun found => ?_
  cases found with
  | true => exact .pure id _
  | false =>
      refine Erases.bind placeFree_coverage fun _ => ?_
      refine Erases.bind (placeFree_keyword _) fun _ => ?_
      exact Erases.bind placeFree_placement fun _ => .pure id _

theorem placeFree_attached? : PlaceFree attached? := by
  refine Erases.bind (placeFree_keyword? _) fun found => ?_
  cases found with
  | true => exact .pure id _
  | false =>
      refine Erases.bind placeFree_coverage fun _ => ?_
      refine Erases.bind (placeFree_keyword _) fun _ => ?_
      refine Erases.bind (placeFree_keyword _) fun _ => ?_
      exact Erases.bind placeFree_quoted fun _ => .pure id _

/-- Whatever a positioning lookup does, nothing in it has a place. -/
theorem placeFree_positioningOf (kind : PositioningWord) : PlaceFree (positioningOf kind) := by
  cases kind with
  | attach =>
      refine Erases.bind placeFree_coverage fun _ => ?_
      refine Erases.bind (placeFree_keyword _) fun _ => ?_
      exact Erases.bind (PlaceFree.many placeFree_attached?) fun _ => .pure id _
  | cursive =>
      refine Erases.bind (PlaceFree.iterate (placeFree_gatherStep joinWord?) _) fun _ => ?_
      exact Erases.bind (placeFree_keyword _) fun _ => .pure id _
  | pairs =>
      refine Erases.bind (PlaceFree.many (placeFree_coverageAfter? _)) fun _ => ?_
      refine Erases.bind (PlaceFree.many (placeFree_coverageAfter? _)) fun _ => ?_
      refine Erases.bind (PlaceFree.many placeFree_pair?) fun _ => ?_
      exact Erases.bind (placeFree_keyword _) fun _ => .pure id _
  | singles => exact Erases.bind (PlaceFree.many placeFree_single?) fun _ => .pure id _

theorem placeFree_positioning : PlaceFree positioning := by
  refine Erases.bind (placeFree_word ..) fun kind => ?_
  refine Erases.bind (placeFree_positioningOf kind) fun _ => ?_
  exact Erases.bind (placeFree_keyword _) fun _ => .pure id _

/-- What a lookup does has places only if it substitutes. -/
theorem erases_payload (reversal : Bool) :
    Erases Payload.unplaced (payload reversal) (payload reversal) := by
  refine .bind (.take ..) fun found => ?_
  rcases found with ⟨_ | _, location⟩
  · exact .bind placeFree_positioning fun _ => .pure Payload.unplaced (.positioning _)
  · exact (erases_substitution reversal location).bind fun _ =>
      .pure Payload.unplaced (.substitution _)

/-- A lookup is the same but for its own place and those of its substitution. -/
theorem erases_lookup (location : Location) :
    Erases LookupDefinition.unplaced (lookup location) (lookup .start) := by
  refine .bind placeFree_quoted fun _ => ?_
  refine .bind (PlaceFree.iterate placeFree_optionStep _) fun options => ?_
  refine .bind (PlaceFree.iterate placeFree_contextStep _) fun _ => ?_
  exact (erases_payload options.reversal).bind fun _ => .pure LookupDefinition.unplaced _

/-! ## Other definitions -/

/-- The code points of a glyph are numbers or a quoted list of them. -/
theorem placeFree_glyphCodePoints : PlaceFree glyphCodePoints := by
  refine Erases.bind (.take? _) fun found => ?_
  rcases found with _ | ⟨_ | _, location⟩
  · exact .pure id _
  · refine Erases.bind erases_quotedWithPlace fun found => ?_
    dsimp only [forget]
    split
    · exact .pure id _
    · exact .failAt ..
  · exact Erases.bind (placeFree_word ..) fun _ => .pure id _

/-- The definition of a glyph has one place, that of its opening word. -/
theorem erases_glyph (location : Location) :
    Erases GlyphDefinition.unplaced (glyph location) (glyph .start) := by
  refine .bind placeFree_quoted fun _ => ?_
  refine .bind (placeFree_keyword _) fun _ => ?_
  refine .bind (placeFree_word ..) fun _ => ?_
  refine .bind placeFree_glyphCodePoints fun _ => ?_
  refine .bind (PlaceFree.optional _ (placeFree_word ..)) fun _ => ?_
  refine .bind (PlaceFree.optional _ (placeFree_word ..)) fun _ => ?_
  exact .bind (placeFree_keyword _) fun _ => .pure GlyphDefinition.unplaced _

theorem erases_group (location : Location) :
    Erases GroupDefinition.unplaced (group location) (group .start) := by
  refine .bind placeFree_quoted fun _ => ?_
  refine .bind (PlaceFree.optional _ ?_) fun _ => ?_
  · refine Erases.bind placeFree_coverage fun _ => ?_
    exact Erases.bind (placeFree_keyword _) fun _ => .pure id _
  · exact .bind (placeFree_keyword _) fun _ => .pure GroupDefinition.unplaced _

theorem erases_feature? :
    Erases (Option.map FeatureDefinition.unplaced) feature? feature? := by
  refine .bind (.take? _) fun found => ?_
  rcases found with _ | ⟨_, location⟩
  · exact .pure _ none
  · refine .bind (PlaceFree.optional _ placeFree_quoted) fun title => ?_
    refine .bind (placeFree_keyword _) fun _ => ?_
    refine .bind placeFree_tag fun tag => ?_
    refine .bind (PlaceFree.many (PlaceFree.optional _ placeFree_quoted)) fun lookups => ?_
    exact .bind (placeFree_keyword _) fun _ =>
      .pure (Option.map FeatureDefinition.unplaced) (some ⟨title, tag, lookups, location⟩)

/-- A language has its own place and those of its features. -/
theorem erases_language? :
    Erases (Option.map LanguageDefinition.unplaced) language? language? := by
  refine .bind (.take? _) fun found => ?_
  rcases found with _ | ⟨_, location⟩
  · exact .pure _ none
  · refine .bind (PlaceFree.optional _ placeFree_quoted) fun title => ?_
    refine .bind (placeFree_keyword _) fun _ => ?_
    refine .bind placeFree_tag fun tag => ?_
    refine .bind (.many erases_feature?) fun features => ?_
    exact .bind (placeFree_keyword _) fun _ =>
      .pure (Option.map LanguageDefinition.unplaced) (some ⟨title, tag, features, location⟩)

/-- A script has its own place and those of its languages. -/
theorem erases_script (location : Location) :
    Erases ScriptDefinition.unplaced (script location) (script .start) := by
  refine .bind (PlaceFree.optional _ placeFree_quoted) fun title => ?_
  refine .bind (placeFree_keyword _) fun _ => ?_
  refine .bind placeFree_tag fun tag => ?_
  refine .bind (.many erases_language?) fun languages => ?_
  exact .bind (placeFree_keyword _) fun _ =>
    .pure ScriptDefinition.unplaced ⟨title, tag, languages, location⟩

theorem erases_anchor (location : Location) :
    Erases AnchorDefinition.unplaced (anchor location) (anchor .start) := by
  refine .bind placeFree_quoted fun _ => ?_
  refine .bind (placeFree_keyword _) fun _ => ?_
  refine .bind (placeFree_word ..) fun _ => ?_
  refine .bind (placeFree_keyword _) fun _ => ?_
  refine .bind placeFree_name fun _ => ?_
  refine .bind (placeFree_keyword _) fun _ => ?_
  refine .bind (placeFree_word ..) fun _ => ?_
  refine .bind (placeFree_keyword? _) fun _ => ?_
  refine .bind (placeFree_keyword _) fun _ => ?_
  refine .bind placeFree_placement fun _ => ?_
  exact .bind (placeFree_keyword _) fun _ => .pure AnchorDefinition.unplaced _

theorem erases_setting (name : String) (location : Location) :
    Erases Setting.unplaced (setting name location) (setting name .start) := by
  unfold setting
  split
  · exact .bind (PlaceFree.many (placeFree_numeral? ..)) fun values =>
      .pure Setting.unplaced ⟨name, values, location⟩
  · exact .failAt ..

/-! ## A whole source -/

/-- A statement is read alike by the parser for its opening word. -/
theorem erases_statement (opening : String) (location : Location) :
    Erases Statement.unplaced (statement opening location) (statement opening .start) := by
  unfold statement
  split
  · exact (erases_glyph location).map fun _ => rfl
  · exact (erases_group location).map fun _ => rfl
  · exact (erases_script location).map fun _ => rfl
  · exact (erases_lookup location).map fun _ => rfl
  · exact (erases_anchor location).map fun _ => rfl
  · exact (erases_setting opening location).map fun _ => rfl

/-- A lexeme behind the end is a fault, wherever it stands. -/
theorem placeFree_endOfText : PlaceFree endOfText := by
  refine Erases.bind (.take? _) fun found => ?_
  rcases found with _ | ⟨lexeme, location⟩
  · exact .pure id _
  · exact .failAt ..

theorem erases_opening? : Erases (Option.map forget) opening? opening? := by
  refine .bind (.take? _) fun found => ?_
  rcases found with _ | ⟨lexeme, location⟩
  · exact .pure _ none
  · cases lexeme with
    | word opening => exact .pure (Option.map forget) (some (opening, location))
    | quoted text => exact .failAt ..
    | unclosed text => exact .failAt ..

/-- The next statement by its opening word, of which `END` is told apart. -/
theorem statement?_eq :
    statement? = opening? >>= fun found =>
      match found with
      | none => pure none
      | some (opening, location) =>
          if opening = "END" then endOfText >>= fun _ => pure none
          else some <$> statement opening location := by
  refine congrArg (opening? >>= ·) (funext fun found => ?_)
  split
  · rfl
  · rfl
  · rename_i opening location differ
    dsimp only
    rw [if_neg differ, map_eq_pure_bind]

/-- The next statement is the same but for its places, or there is none in both texts. -/
theorem erases_statement? : Erases (Option.map Statement.unplaced) statement? statement? := by
  rw [statement?_eq]
  refine erases_opening?.bind fun found => ?_
  rcases found with _ | ⟨opening, location⟩
  · exact .pure _ none
  · dsimp only [Option.map_some, forget]
    split
    · exact .bind placeFree_endOfText fun _ => .pure (Option.map Statement.unplaced) none
    · exact (erases_statement opening location).map fun _ => rfl

/-- Reading the statements of a source depends on the lexemes alone, but for the places. -/
theorem erases_statements : Erases (List.map Statement.unplaced) statements statements :=
  .many erases_statement?

end Parser
end Source
end GlyphLayout
