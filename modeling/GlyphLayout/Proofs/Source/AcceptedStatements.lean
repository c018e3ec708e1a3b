import GlyphLayout.Proofs.Source.Accepted
import GlyphLayout.Proofs.Source.Places

/-!
# What is read is well-formed

Every definition that a parser reads is well-formed, and so is the list of statements that is
read from a whole source.
-/

namespace GlyphLayout
namespace Source
namespace Parser

variable {α : Type}

/-! ## Comments -/

/-- A newline becomes a backslash and a letter, and neither is a quotation mark. -/
theorem quotable_escapeNewlines {text : List Char} (clean : '"' ∉ text) :
    '"' ∉ escapeNewlines text := by
  induction text with
  | nil => exact clean
  | cons c cs ih =>
      rw [List.mem_cons, not_or] at clean
      rw [escapeNewlines]
      split <;> simp [clean.1, ih clean.2]

/-- A backslash and a letter become a newline, which is no quotation mark. -/
theorem quotable_unescapeNewlines {text : List Char} (clean : '"' ∉ text) :
    '"' ∉ unescapeNewlines text := by
  induction text using unescapeNewlines.induct with
  | case1 cs ih =>
      simp only [List.mem_cons, not_or] at clean
      simp [unescapeNewlines, ih clean.2.2]
  | case2 c cs different ih =>
      rw [List.mem_cons, not_or] at clean
      rw [unescapeNewlines]
      · simp [clean.1, ih clean.2]
      · exact different
  | case3 => exact clean

/-- Only an unescaped text with the letter in front begins with the letter. -/
theorem head_of_unescapeNewlines
    {text others : List Char}
    (same : unescapeNewlines text = 'n' :: others) :
    ∃ rest, text = 'n' :: rest := by
  unfold unescapeNewlines at same
  split at same
  · cases same
  · cases same
    exact ⟨_, rfl⟩
  · cases same

/-- No escape is left in an unescaped text. -/
theorem hasNoEscape_unescapeNewlines (text : List Char) :
    HasNoEscape (unescapeNewlines text) := by
  induction text using unescapeNewlines.induct with
  | case1 cs ih =>
      rw [unescapeNewlines]
      intro inside
      rcases List.infix_cons_iff.mp inside with front | later
      · cases (List.cons_prefix_cons.mp front).1
      · exact ih later
  | case2 c cs different ih =>
      rw [show unescapeNewlines (c :: cs) = c :: unescapeNewlines cs by
        rw [unescapeNewlines]; exact different]
      intro inside
      rcases List.infix_cons_iff.mp inside with front | later
      · obtain ⟨backslash, letter⟩ := List.cons_prefix_cons.mp front
        obtain ⟨others, same⟩ := letter
        obtain ⟨rest, begins⟩ := head_of_unescapeNewlines same.symm
        exact different rest backslash.symm begins
      · exact ih later
  | case3 => simp [unescapeNewlines, HasNoEscape]

/-! ## Lookups -/

/-- The options that have been read can be written again. -/
structure LookupOptions.Clean (options : LookupOptions) : Prop where
  marks : Unquoted options.marks.lexemes
  comments : ∀ comments ∈ options.comments, HasNoEscape comments.toList
  quotable : Unquoted (commentLexemes options.comments)

theorem yields_markFilter : Yields (fun marks => Unquoted marks.lexemes) markFilter := by
  have reads : ∀ (lexeme : Lexeme) (found : Option MarkFilter), lexeme.Scanned →
      markWord? lexeme = some found → ∀ marks ∈ found, Unquoted marks.lexemes := by
    intro lexeme found scanned word
    unfold markWord? at word
    split at word
    · cases word
      rintro marks ⟨⟩
      simpa [MarkFilter.lexemes] using quote_not_mem_of_scanned scanned
    · cases word
      rintro marks ⟨⟩
      simp [MarkFilter.lexemes]
    · cases word
      rintro marks ⟨⟩
      simp [MarkFilter.lexemes]
    · cases word
      simp
    · cases word
  refine .bind (.take? reads) fun found clean => ?_
  rcases found with _ | ⟨_ | marks, location⟩
  · exact .pure (by simp [MarkFilter.lexemes])
  · exact yields_quoted.bind fun _ quotable =>
      .pure (by simpa [MarkFilter.lexemes] using quotable)
  · exact .pure (clean _ rfl marks rfl)

/-- Each option is set from a token, so what it quotes can be quoted again. -/
theorem yields_optionStep {options : LookupOptions} (clean : LookupOptions.Clean options) :
    Yields (fun found => ∀ next ∈ found, LookupOptions.Clean next) (optionStep options) := by
  refine .bind (.take? (fun _ _ _ _ => trivial)) fun found _ => ?_
  rcases found with _ | ⟨word, location⟩
  · exact .pure (by simp)
  · cases word with
    | processBase | skipBase | reversal =>
        refine .pure ?_
        rintro next ⟨⟩
        exact ⟨clean.marks, clean.comments, clean.quotable⟩
    | processMarks =>
        refine yields_markFilter.bind fun marks unquoted => .pure ?_
        rintro next ⟨⟩
        exact ⟨unquoted, clean.comments, clean.quotable⟩
    | skipMarks =>
        refine .pure ?_
        rintro next ⟨⟩
        exact ⟨by simp [MarkFilter.lexemes], clean.comments, clean.quotable⟩
    | direction =>
        refine (yields_word ..).bind fun _ _ => .pure ?_
        rintro next ⟨⟩
        exact ⟨clean.marks, clean.comments, clean.quotable⟩
    | comments =>
        refine yields_quoted.bind fun text quotable => .pure ?_
        rintro next ⟨⟩
        refine ⟨clean.marks, ?_, ?_⟩
        · rintro comments ⟨⟩
          simpa using hasNoEscape_unescapeNewlines text.toList
        · simpa [commentLexemes] using
            quotable_escapeNewlines (quotable_unescapeNewlines quotable)

/-- A context is kept only if it has a coverage on one of its sides. -/
theorem yields_contextStep
    {contexts : List ContextDefinition}
    (clean : ∀ context ∈ contexts, context.WellFormed ∧ Unquoted context.lexemes) :
    Yields (fun found => ∀ next ∈ found, ∀ context ∈ next,
      context.WellFormed ∧ Unquoted context.lexemes) (contextStep contexts) := by
  refine .bind (.take? (fun _ _ _ _ => trivial)) fun found _ => ?_
  rcases found with _ | ⟨kind, location⟩
  · exact .pure (by simp)
  · have start : CleanSides ([], []) := by simp [CleanSides]
    refine .bind (.iterate (fun _ => yields_gatherStep sideWord?) start) fun sides fine => ?_
    refine (yields_keyword _).bind fun _ _ => ?_
    split
    · refine .pure ?_
      rintro next ⟨⟩
      exact clean
    · rename_i filled
      refine .pure ?_
      rintro next ⟨⟩
      refine List.forall_mem_cons.mpr ⟨⟨?_, ?_⟩, clean⟩
      · simpa [ContextDefinition.WellFormed, ← not_and_or] using filled
      · simpa [ContextDefinition.lexemes, CleanSides] using fine

theorem yields_mapping? :
    Yields (fun found => ∀ mapping ∈ found, Unquoted mapping.lexemes) mapping? := by
  refine .bind (.take? (fun _ _ _ _ => trivial)) fun found _ => ?_
  rcases found with _ | ⟨_, location⟩
  · exact .pure (by simp)
  · refine yields_coverage.bind fun input inputClean => ?_
    refine (yields_keyword _).bind fun _ _ => ?_
    refine yields_coverage.bind fun output outputClean => ?_
    exact (yields_keyword _).bind fun _ _ =>
      .pure (by simp [Mapping.lexemes, inputClean, outputClean])

/-- A substitution has the kind that the lengths of its mappings give it. -/
theorem yields_substitution (reversal : Bool) (location : Location) :
    Yields (fun value => value.WellFormed reversal ∧ Unquoted value.lexemes)
      (substitution reversal location) := by
  refine yields_mapping?.many.bind fun mappings clean => ?_
  refine (yields_keyword _).bind fun _ _ => ?_
  split
  · rename_i kind found
    refine .pure ⟨?_, by simpa [Substitution.lexemes] using clean⟩
    exact (Substitution.ofMappings?_eq_some_iff reversal ⟨kind, mappings, location⟩).mp found
  · exact .failAt ..

theorem yields_payload (reversal : Bool) :
    Yields (fun value => value.WellFormed reversal ∧ Unquoted value.lexemes)
      (payload reversal) := by
  refine .bind (.take (fun _ _ _ _ => trivial) _) fun found _ => ?_
  rcases found with ⟨_ | _, location⟩
  · exact yields_positioning.bind fun value formed =>
      .pure ⟨formed.1, by simpa [Payload.lexemes] using formed.2⟩
  · exact (yields_substitution reversal location).bind fun value formed => .pure formed

/-- A lookup is read as a well-formed one, comments, contexts and payload included. -/
theorem yields_lookup (location : Location) :
    Yields (fun value => value.WellFormed ∧ Unquoted value.lexemes) (lookup location) := by
  have start : LookupOptions.Clean {} :=
    ⟨by simp [MarkFilter.lexemes], by simp, by simp [commentLexemes]⟩
  refine yields_quoted.bind fun name quotable => ?_
  refine .bind (.iterate (fun _ clean => yields_optionStep clean) start) fun options clean => ?_
  refine .bind (.iterate (fun _ formed => yields_contextStep formed) (by simp))
    fun contexts formed => ?_
  refine (yields_payload options.reversal).bind fun payload payloadFormed => .pure ⟨?_, ?_⟩
  · exact ⟨clean.comments, by simpa using fun context member => (formed context member).1,
      payloadFormed.1⟩
  · have base : Unquoted (baseLexemes options.processBase) := by simp [baseLexemes]
    have direction : Unquoted (directionLexemes options.direction) := by
      rcases options.direction with _ | _ | _ <;> simp [directionLexemes]
    have reversal : Unquoted (reversalLexemes options.reversal) := by
      cases options.reversal <;> simp [reversalLexemes]
    have contextsClean : ∀ context ∈ contexts, Unquoted context.lexemes :=
      fun context member => (formed context member).2
    simpa [LookupDefinition.lexemes, quotable, base, clean.marks, direction, reversal,
      clean.quotable, payloadFormed.2] using contextsClean

/-! ## Glyphs, groups and anchors -/

/-- The text of code points holds no quotation mark. -/
theorem quotable_codePointsText (values : List UInt32) : Quotable (codePointsText values) := by
  have digits (value : UInt32) : '"' ∉ codePointText value := by
    have inside := Text.forall_mem_upperHex (· ≠ '"') (by decide) value.toNat
    simp only [codePointText, List.mem_cons, not_or]
    exact ⟨by decide, by decide, fun member => inside '"' member rfl⟩
  rw [Quotable, codePointsText, String.toList_ofList]
  induction values with
  | nil => simp [List.intercalate]
  | cons value values ih =>
      cases values with
      | nil => simpa [List.intercalate] using digits value
      | cons next values =>
          rw [List.map_cons] at ih
          rw [List.map_cons, List.map_cons, List.intercalate_cons_cons]
          simp only [List.mem_append, List.mem_singleton, not_or]
          exact ⟨⟨digits value, by decide⟩, ih⟩

@[simp] theorem unquoted_codePoints (values : List UInt32) :
    Unquoted (codePointLexemes values) := by
  match values with
  | [] => exact unquoted_nil
  | [value] => simp [codePointLexemes]
  | first :: second :: others =>
      simpa [codePointLexemes] using quotable_codePointsText (first :: second :: others)

theorem unquoted_optional
    (mark : String)
    (write : α → Lexeme)
    {value : Option α}
    (each : ∀ inner ∈ value, Unquoted [write inner]) :
    Unquoted (optionalLexemes mark write value) := by
  cases value with
  | none => exact unquoted_nil
  | some inner => exact (unquoted_word_cons mark _).mpr (each inner rfl)

theorem yields_glyphCodePoints : Yields (fun _ => True) glyphCodePoints := by
  refine .bind (.take? (fun _ _ _ _ => trivial)) fun found _ => ?_
  rcases found with _ | ⟨_ | _, location⟩
  · exact .pure trivial
  · refine yields_quotedWithPlace.bind fun _ _ => ?_
    dsimp only
    split
    · exact .pure trivial
    · exact .failAt ..
  · exact (yields_word ..).bind fun _ _ => .pure trivial

/-- A part behind a mark is of its sort if it is there. -/
theorem Yields.optional
    {sort : α → Prop} {part : Parser α}
    (mark : String)
    (each : Yields sort part) :
    Yields (fun found => ∀ value ∈ found, sort value) (optional mark part) := by
  refine (yields_keyword? mark).bind fun found _ => ?_
  cases found with
  | false => exact .pure (by simp)
  | true => exact each.bind fun value fine => .pure (by simpa using fine)

/-- The definition of a glyph quotes its name and its code points only. -/
theorem yields_glyph (location : Location) :
    Yields (fun value => Unquoted value.lexemes) (glyph location) := by
  refine yields_quoted.bind fun name quotable => ?_
  refine (yields_keyword _).bind fun _ _ => ?_
  refine (yields_word ..).bind fun _ _ => ?_
  refine yields_glyphCodePoints.bind fun _ _ => ?_
  refine (Yields.optional _ (yields_word ..)).bind fun kind _ => ?_
  refine (Yields.optional _ (yields_word ..)).bind fun components _ => ?_
  refine (yields_keyword _).bind fun _ _ => .pure ?_
  have kindClean : Unquoted (optionalLexemes "TYPE" (fun kind => .word kind.keyword) kind) :=
    unquoted_optional _ _ (by simp)
  have componentsClean :
      Unquoted (optionalLexemes "COMPONENTS" (fun count => .numeral count.toNat) components) :=
    unquoted_optional _ _ (by simp)
  simp [GlyphDefinition.lexemes, quotable, kindClean, componentsClean]

theorem yields_group (location : Location) :
    Yields (fun value => Unquoted value.lexemes) (group location) := by
  refine yields_quoted.bind fun name quotable => ?_
  have inside : Yields (fun items => Unquoted (coverageLexemes items)) (do
      let members ← coverage
      keyword "END_ENUM"
      return members) :=
    yields_coverage.bind fun items clean => (yields_keyword _).bind fun _ _ => .pure clean
  refine (Yields.optional _ inside).bind fun members clean => ?_
  refine (yields_keyword _).bind fun _ _ => .pure ?_
  have membersClean : Unquoted (coverageLexemes (members.getD [])) := by
    cases members with
    | none => exact unquoted_nil
    | some items => exact clean items rfl
  simp [GroupDefinition.lexemes, quotable, membersClean]

theorem yields_anchor (location : Location) :
    Yields (fun value => value.WellFormed ∧ Unquoted value.lexemes) (anchor location) := by
  refine yields_quoted.bind fun name quotable => ?_
  refine (yields_keyword _).bind fun _ _ => ?_
  refine (yields_word ..).bind fun _ _ => ?_
  refine (yields_keyword _).bind fun _ _ => ?_
  refine yields_name.bind fun glyph glyphQuotable => ?_
  refine (yields_keyword _).bind fun _ _ => ?_
  refine (yields_word ..).bind fun _ _ => ?_
  refine (yields_keyword? _).bind fun locked _ => ?_
  refine (yields_keyword _).bind fun _ _ => ?_
  refine yields_placement.bind fun placement formed => ?_
  refine (yields_keyword _).bind fun _ _ => .pure ⟨formed, ?_⟩
  have lockedClean : Unquoted (lockedLexemes locked) := by
    cases locked <;> simp [lockedLexemes]
  simp [AnchorDefinition.lexemes, quotable, glyphQuotable, lockedClean]

/-! ## Scripts -/

/-- The heading of a script or a feature quotes its title and its tag. -/
theorem unquoted_heading
    {title : Option String} {tag : Tag}
    (titleQuotable : ∀ text ∈ title, Quotable text)
    (tagQuotable : Quotable tag.padded) :
    Unquoted (headingLexemes title tag) := by
  have titleClean : Unquoted (optionalLexemes "NAME" .quoted title) :=
    unquoted_optional _ _ (by simpa using titleQuotable)
  simp [headingLexemes, titleClean, tagQuotable]

theorem yields_feature? :
    Yields (fun found => ∀ feature ∈ found, Unquoted feature.lexemes) feature? := by
  refine .bind (.take? (fun _ _ _ _ => trivial)) fun found _ => ?_
  rcases found with _ | ⟨_, location⟩
  · exact .pure (by simp)
  · refine (Yields.optional _ yields_quoted).bind fun title titleQuotable => ?_
    refine (yields_keyword _).bind fun _ _ => ?_
    refine yields_tag.bind fun tag tagQuotable => ?_
    refine (Yields.optional _ yields_quoted).many.bind fun lookups quotable => ?_
    refine (yields_keyword _).bind fun _ _ => .pure ?_
    rintro feature ⟨⟩
    simpa [FeatureDefinition.lexemes, unquoted_heading titleQuotable tagQuotable, lookupUseLexemes]
      using quotable

theorem yields_language? :
    Yields (fun found => ∀ language ∈ found, Unquoted language.lexemes) language? := by
  refine .bind (.take? (fun _ _ _ _ => trivial)) fun found _ => ?_
  rcases found with _ | ⟨_, location⟩
  · exact .pure (by simp)
  · refine (Yields.optional _ yields_quoted).bind fun title titleQuotable => ?_
    refine (yields_keyword _).bind fun _ _ => ?_
    refine yields_tag.bind fun tag tagQuotable => ?_
    refine yields_feature?.many.bind fun features clean => ?_
    refine (yields_keyword _).bind fun _ _ => .pure ?_
    rintro language ⟨⟩
    simpa [LanguageDefinition.lexemes, unquoted_heading titleQuotable tagQuotable] using clean

/-- All that a script quotes was quoted when it was read. -/
theorem yields_script (location : Location) :
    Yields (fun value => Unquoted value.lexemes) (script location) := by
  refine (Yields.optional _ yields_quoted).bind fun title titleQuotable => ?_
  refine (yields_keyword _).bind fun _ _ => ?_
  refine yields_tag.bind fun tag tagQuotable => ?_
  refine yields_language?.many.bind fun languages clean => ?_
  refine (yields_keyword _).bind fun _ _ => .pure ?_
  simpa [ScriptDefinition.lexemes, unquoted_heading titleQuotable tagQuotable] using clean

/-! ## Settings -/

theorem unquoted_setting (definition : Setting) : Unquoted definition.lexemes := by
  simp [Setting.lexemes, Unquoted, Lexeme.numeral, Lexeme.quotedText]

/-- A setting is read as one whose name opens no other statement. -/
theorem yields_setting
    {name : String}
    (word : IsWord name)
    (free : name ∉ openingWords)
    (location : Location) :
    Yields Setting.WellFormed (setting name location) := by
  unfold setting
  split
  · rename_i characters
    have values := Yields.many ((yields_numeral? "a setting value" Text.int32?).imp
      fun _ _ _ _ => trivial)
    exact values.bind fun _ _ => .pure ⟨word.1, List.all_eq_true.mp characters, free⟩
  · exact .failAt ..

/-- What a reader of single lexemes takes does not come next. -/
def NotNext (read : Lexeme → Option α) (remaining : Remaining) : Prop :=
  ∀ token rest, remaining.next? = some (token, rest) → read token.lexeme = none

/-- A token that is not taken stays, and is one that the reader refuses. -/
theorem take?_eq_none
    {read : Lexeme → Option α} {remaining rest : Remaining}
    (ran : take? read remaining = .ok (none, rest)) :
    rest = remaining ∧ NotNext read remaining := by
  unfold take? at ran
  split at ran
  · rename_i last
    cases ran
    exact ⟨rfl, fun token rest found => by rw [last] at found; cases found⟩
  · rename_i token later found
    split at ran
    · cases ran
    · rename_i refused
      cases ran
      refine ⟨rfl, fun other rest same => ?_⟩
      rw [found] at same
      cases same
      exact refused

/-- A token that is taken is the one that comes next. -/
theorem take?_eq_some
    {read : Lexeme → Option α} {remaining rest : Remaining} {found : α × Location}
    (ran : take? read remaining = .ok (some found, rest)) :
    ∃ token, remaining.next? = some (token, rest) ∧ read token.lexeme = some found.1 := by
  unfold take? at ran
  split at ran
  · cases ran
  · rename_i token later next
    split at ran
    · rename_i value taken
      cases ran
      exact ⟨token, next, taken⟩
    · cases ran

/-- The next step of a list, whose items so far are kept latest first. -/
theorem listStep_eq_some_iff
    {item : Parser (Option α)} {found next : List α} {remaining rest : Remaining} :
    (do return (← item).map (· :: found) : Parser (Option (List α))) remaining =
        .ok (some next, rest) ↔
      ∃ value, item remaining = .ok (some value, rest) ∧ next = value :: found := by
  rw [bind_eq_ok_iff]
  constructor
  · rintro ⟨_ | value, middle, ran, ⟨⟩⟩
    exact ⟨value, ran, rfl⟩
  · rintro ⟨value, ran, rfl⟩
    exact ⟨some value, rest, ran, rfl⟩

/-- A list ends where its items do. -/
theorem listStep_eq_none_iff
    {item : Parser (Option α)} {found : List α} {remaining rest : Remaining} :
    (do return (← item).map (· :: found) : Parser (Option (List α))) remaining =
        .ok (none, rest) ↔
      item remaining = .ok (none, rest) := by
  rw [bind_eq_ok_iff]
  constructor
  · rintro ⟨_ | value, middle, ran, ⟨⟩⟩
    exact ran
  · intro ran
    exact ⟨none, rest, ran, rfl⟩

/-- A list ends where no further item is read, if every item takes a token. -/
theorem many_stops
    {item : Parser (Option α)} {stopped : Remaining → Prop}
    (stops : ∀ {remaining rest}, item remaining = .ok (none, rest) → stopped rest)
    (takes : ∀ {remaining value rest}, item remaining = .ok (some value, rest) →
      rest.size < remaining.size)
    {remaining rest : Remaining} {values : List α}
    (ran : many item remaining = .ok (values, rest)) :
    stopped rest := by
  obtain ⟨found, middle, ranAll, last⟩ := bind_eq_ok_iff.mp ran
  cases last
  refine iterate_invariant (fun _ _ => True) (fun _ rest => stopped rest) (fun _ _ => trivial)
    (fun _ step => stops (listStep_eq_none_iff.mp step)) (fun _ step less => ?_) trivial ranAll
  obtain ⟨value, ranItem, -⟩ := listStep_eq_some_iff.mp step
  exact absurd (takes ranItem) less

/-- No numeral comes behind the last numeral of a list. -/
theorem numeral?_stops
    {what : String} {read : String → Option α} {remaining rest : Remaining}
    (ran : numeral? what read remaining = .ok (none, rest)) :
    NotNext numeralWord? rest := by
  obtain ⟨found, middle, ranTake, last⟩ := bind_eq_ok_iff.mp ran
  rcases found with _ | ⟨text, location⟩
  · cases last
    obtain ⟨rfl, past⟩ := take?_eq_none ranTake
    exact past
  · cases outcome : read text <;> simp only [outcome] at last <;> cases last

theorem numeral?_takes
    {what : String} {read : String → Option α} {remaining rest : Remaining} {value : α}
    (ran : numeral? what read remaining = .ok (some value, rest)) :
    rest.size < remaining.size := by
  obtain ⟨found, middle, ranTake, last⟩ := bind_eq_ok_iff.mp ran
  rcases found with _ | ⟨text, location⟩
  · cases last
  · obtain ⟨token, next, -⟩ := take?_eq_some ranTake
    cases outcome : read text with
    | none =>
        simp only [outcome] at last
        cases last
    | some value =>
        simp only [outcome] at last
        cases last
        exact Remaining.size_next next

/-- The values of a setting end where no numeral comes next. -/
theorem setting_stops
    {name : String} {location : Location} {remaining rest : Remaining} {definition : Setting}
    (ran : setting name location remaining = .ok (definition, rest)) :
    definition.name = name ∧ NotNext numeralWord? rest := by
  unfold setting at ran
  split at ran
  · obtain ⟨values, middle, ranValues, last⟩ := bind_eq_ok_iff.mp ran
    cases last
    exact ⟨rfl, many_stops numeral?_stops numeral?_takes ranValues⟩
  · cases ran

/-! ## Statements -/

/-- An opening word that is not the end of the source opens a well-formed statement. -/
theorem yields_statement
    {opening : String}
    (word : IsWord opening)
    (notEnd : opening ≠ "END")
    (location : Location) :
    Yields Statement.WellFormed (statement opening location) := by
  unfold statement
  split
  · exact (yields_glyph location).map fun _ clean => ⟨trivial, clean⟩
  · exact (yields_group location).map fun _ clean => ⟨trivial, clean⟩
  · exact (yields_script location).map fun _ clean => ⟨trivial, clean⟩
  · exact (yields_lookup location).map fun _ formed => ⟨formed.1, formed.2⟩
  · exact (yields_anchor location).map fun _ formed => ⟨formed.1, formed.2⟩
  · have free : opening ∉ openingWords := by
      simp_all [openingWords]
    exact (yields_setting word free location).map fun value formed =>
      ⟨formed, unquoted_setting value⟩

/-- A statement has its opening word, and a numeral behind a setting is one of its values. -/
theorem statement_stops
    {opening : String} {location : Location} {remaining rest : Remaining} {value : Statement}
    (ran : statement opening location remaining = .ok (value, rest)) :
    value.opening = opening ∧ ∀ definition, value = .setting definition →
      NotNext numeralWord? rest := by
  unfold statement at ran
  split at ran
  · obtain ⟨_, -, rfl⟩ := map_eq_ok_iff.mp ran
    exact ⟨rfl, fun _ other => by cases other⟩
  · obtain ⟨_, -, rfl⟩ := map_eq_ok_iff.mp ran
    exact ⟨rfl, fun _ other => by cases other⟩
  · obtain ⟨_, -, rfl⟩ := map_eq_ok_iff.mp ran
    exact ⟨rfl, fun _ other => by cases other⟩
  · obtain ⟨_, -, rfl⟩ := map_eq_ok_iff.mp ran
    exact ⟨rfl, fun _ other => by cases other⟩
  · obtain ⟨_, -, rfl⟩ := map_eq_ok_iff.mp ran
    exact ⟨rfl, fun _ other => by cases other⟩
  · obtain ⟨definition, ranSetting, rfl⟩ := map_eq_ok_iff.mp ran
    obtain ⟨name, stops⟩ := setting_stops ranSetting
    exact ⟨name, fun _ _ => stops⟩

/-- A word is the opening word of a statement. -/
theorem opening?_eq_some_iff
    {remaining rest : Remaining} {opening : String} {location : Location} :
    opening? remaining = .ok (some (opening, location), rest) ↔
      ∃ token, remaining.next? = some (token, rest) ∧ token.lexeme = .word opening ∧
        token.location = location := by
  rw [opening?, bind_eq_ok_iff]
  cases next : remaining.next? with
  | none =>
      refine iff_of_false ?_ (by rintro ⟨_, ⟨⟩, _⟩)
      rintro ⟨found, middle, ran, last⟩
      simp only [take?, next] at ran
      cases ran
      cases last
  | some pair =>
      obtain ⟨⟨lexeme, place⟩, later⟩ := pair
      have noOpening (problem : Problem) :
          (failAt place problem : Parser (Option (String × Location))) later ≠
            .ok (some (opening, location), rest) := by
        rintro ⟨⟩
      cases lexeme with
      | word text =>
          constructor
          · rintro ⟨found, middle, ran, last⟩
            simp only [take?, next] at ran
            cases ran
            cases last
            exact ⟨_, rfl, rfl, rfl⟩
          · rintro ⟨token, ⟨⟩, ⟨⟩, rfl⟩
            exact ⟨some (.word opening, place), rest, by simp [take?, next], rfl⟩
      | quoted text | unclosed text => simp [take?, next, noOpening]

/-- The next statement begins with a word, by which it is read, and not with the last word. -/
theorem statement?_eq_some_iff
    {remaining rest : Remaining} {value : Statement} :
    statement? remaining = .ok (some value, rest) ↔
      ∃ token middle opening, remaining.next? = some (token, middle) ∧
        token.lexeme = .word opening ∧ opening ≠ "END" ∧
        statement opening token.location middle = .ok (value, rest) := by
  rw [statement?_eq, bind_eq_ok_iff]
  constructor
  · rintro ⟨_ | ⟨opening, location⟩, middle, ranOpening, last⟩
    · cases last
    · obtain ⟨token, next, word, rfl⟩ := opening?_eq_some_iff.mp ranOpening
      dsimp only at last
      split at last
      · obtain ⟨_, _, -, other⟩ := bind_eq_ok_iff.mp last
        cases other
      · rename_i notEnd
        obtain ⟨inner, ranStatement, same⟩ := map_eq_ok_iff.mp last
        cases same
        exact ⟨token, middle, opening, next, word, notEnd, ranStatement⟩
  · rintro ⟨token, middle, opening, next, word, notEnd, ran⟩
    refine ⟨some (opening, token.location), middle,
      opening?_eq_some_iff.mpr ⟨token, next, word, rfl⟩, ?_⟩
    dsimp only
    rw [if_neg notEnd]
    exact map_eq_ok_iff.mpr ⟨value, ran, rfl⟩

/-- The statements that have been read so far, latest first, and the tokens that are left. -/
structure ReadSoFar (found : List Statement) (remaining : Remaining) : Prop where
  scanned : remaining.Scanned
  each : ∀ value ∈ found, value.WellFormed
  apart : found.IsChain fun later earlier => earlier.Apart later
  behind : ∀ definition others, found = .setting definition :: others →
    NotNext numeralWord? remaining

/-- One more statement is well-formed, and apart from the one in front of it. -/
theorem ReadSoFar.next
    {found : List Statement} {value : Statement} {remaining rest : Remaining}
    (soFar : ReadSoFar found remaining)
    (ran : statement? remaining = .ok (some value, rest)) :
    ReadSoFar (value :: found) rest := by
  obtain ⟨token, middle, opening, next, word, notEnd, ranStatement⟩ :=
    statement?_eq_some_iff.mp ran
  obtain ⟨scannedToken, scannedMiddle⟩ := soFar.scanned.next next
  obtain ⟨formed, scannedRest⟩ := (yields_statement
    (isWord_of_scanned (word ▸ scannedToken)) notEnd token.location).keep scannedMiddle
    ranStatement
  obtain ⟨same, stops⟩ := statement_stops ranStatement
  have apart : ∀ earlier ∈ found.head?, earlier.Apart value := by
    intro earlier first
    cases earlier with
    | setting definition =>
        obtain ⟨others, rfl⟩ := List.head?_eq_some_iff.mp first
        have refused := soFar.behind definition others rfl token middle next
        cases value with
        | setting latest =>
            rw [word, ← same] at refused
            by_contra numeral
            simp_all [numeralWord?, Statement.opening, Statement.Apart]
        | _ => trivial
    | _ => cases value <;> trivial
  refine ⟨scannedRest, List.forall_mem_cons.mpr ⟨formed, soFar.each⟩,
    List.isChain_cons.mpr ⟨apart, soFar.apart⟩, fun definition others begins => ?_⟩
  exact stops definition (List.cons.inj begins).1

/-- Whatever is read from scanned tokens is a well-formed source. -/
theorem wellFormed_of_statements
    {remaining rest : Remaining} {values : List Statement}
    (scanned : remaining.Scanned)
    (ran : statements remaining = .ok (values, rest)) :
    WellFormed values := by
  obtain ⟨found, middle, ranAll, last⟩ := bind_eq_ok_iff.mp ran
  cases last
  have formed (found : List Statement) (remaining : Remaining) (soFar : ReadSoFar found remaining) :
      WellFormed found.reverse :=
    ⟨by simpa using soFar.each, List.isChain_reverse.mpr soFar.apart⟩
  refine iterate_invariant ReadSoFar (fun found _ => WellFormed found.reverse)
    (fun soFar step => ?_) (fun soFar _ => formed _ _ soFar) (fun soFar step _ => ?_)
    ⟨scanned, by simp, .nil, by simp⟩ ranAll
  · obtain ⟨value, ranStatement, rfl⟩ := listStep_eq_some_iff.mp step
    exact soFar.next ranStatement
  · obtain ⟨value, ranStatement, rfl⟩ := listStep_eq_some_iff.mp step
    exact formed _ _ (soFar.next ranStatement)

end Parser
end Source
end GlyphLayout
