import GlyphLayout.Proofs.Source.Literals
import GlyphLayout.Proofs.Source.Reading

/-!
# Reading statements that were written

The lexemes of a well-formed statement are read as the statement without its places, and
those of a whole source as its statements.
-/

namespace GlyphLayout
namespace Source

namespace Parser

open Remaining (ofLexemes)

/-! ## Lookups -/

section Options

variable (options : LookupOptions) (rest : List Lexeme)

/-- Bases are skipped or processed as written, whatever was read before. -/
theorem iterate_base (processBase : Bool) :
    iterate optionStep options (ofLexemes (baseLexemes processBase ++ rest)) =
      iterate optionStep { options with processBase } (ofLexemes rest) := by
  refine iterate_next ?_ (by simp [baseLexemes])
  cases processBase with
  | false =>
      have word : optionWord? (.word "SKIP_BASE") = some .skipBase := rfl
      simp [baseLexemes, optionStep, take?_cons word]
  | true =>
      have word : optionWord? (.word "PROCESS_BASE") = some .processBase := rfl
      simp [baseLexemes, optionStep, take?_cons word]

/-- Marks are treated as written, whatever was read before. -/
theorem iterate_marks (marks : MarkFilter) :
    iterate optionStep options (ofLexemes (marks.lexemes ++ rest)) =
      iterate optionStep { options with marks } (ofLexemes rest) := by
  have word : optionWord? (.word "PROCESS_MARKS") = some .processMarks := rfl
  refine iterate_next ?_ (by cases marks <;> simp [MarkFilter.lexemes])
  cases marks with
  | all =>
      have kind : markWord? (.word "ALL") = some (some .all) := rfl
      simp [MarkFilter.lexemes, optionStep, markFilter, take?_cons word, take?_cons kind]
  | none =>
      have skip : optionWord? (.word "SKIP_MARKS") = some .skipMarks := rfl
      simp [MarkFilter.lexemes, optionStep, take?_cons skip]
  | attachment group =>
      have kind : markWord? (.quoted group) = some (some (.attachment group)) := rfl
      simp [MarkFilter.lexemes, optionStep, markFilter, take?_cons word, take?_cons kind]
  | filterSet group =>
      have kind : markWord? (.word "MARK_GLYPH_SET") = some none := rfl
      simp [MarkFilter.lexemes, optionStep, markFilter, take?_cons word, take?_cons kind]

/-- A direction is read if one was written, and otherwise stays unset. -/
theorem iterate_direction (direction : Option Direction) (unset : options.direction = none) :
    iterate optionStep options (ofLexemes (directionLexemes direction ++ rest)) =
      iterate optionStep { options with direction } (ofLexemes rest) := by
  have word : optionWord? (.word "DIRECTION") = some .direction := rfl
  cases direction with
  | none =>
      obtain ⟨⟩ := options
      obtain rfl := unset
      rfl
  | some direction =>
      refine iterate_next ?_ (by cases direction <;> simp [directionLexemes])
      cases direction with
      | leftToRight =>
          have named := word_cons (show direction? "LTR" = some .leftToRight from rfl) "LTR or RTL"
          simp [directionLexemes, optionStep, take?_cons word, named]
      | rightToLeft =>
          have named := word_cons (show direction? "RTL" = some .rightToLeft from rfl) "LTR or RTL"
          simp [directionLexemes, optionStep, take?_cons word, named]

theorem iterate_reversal (reversal : Bool) (unset : options.reversal = false) :
    iterate optionStep options (ofLexemes (reversalLexemes reversal ++ rest)) =
      iterate optionStep { options with reversal } (ofLexemes rest) := by
  have word : optionWord? (.word "REVERSAL") = some .reversal := rfl
  cases reversal with
  | false =>
      obtain ⟨⟩ := options
      obtain rfl := unset
      rfl
  | true =>
      refine iterate_next ?_ (by simp [reversalLexemes])
      simp [reversalLexemes, optionStep, take?_cons word]

/-- Comments are read back if they hold nothing that stands for a newline. -/
theorem iterate_comments
    (comments : Option String)
    (unset : options.comments = none)
    (clean : ∀ text, comments = some text → HasNoEscape text.toList) :
    iterate optionStep options (ofLexemes (commentLexemes comments ++ rest)) =
      iterate optionStep { options with comments } (ofLexemes rest) := by
  have word : optionWord? (.word "COMMENTS") = some .comments := rfl
  cases comments with
  | none =>
      obtain ⟨⟩ := options
      obtain rfl := unset
      rfl
  | some text =>
      refine iterate_next ?_ (by simp [commentLexemes])
      simp [commentLexemes, optionStep, take?_cons word, unescape_escapeNewlines (clean text rfl)]

end Options

/-- A context is read back, and joins those read before. -/
theorem contextStep_reads
    {context : ContextDefinition}
    (formed : context.WellFormed)
    (contexts : List ContextDefinition) :
    ReadsAlways (contextStep contexts) context.lexemes (some (context :: contexts)) := by
  intro rest _
  have word : contextWord? (.word context.kind.keyword) = some context.kind := by
    cases context.kind <;> rfl
  have noSide : Past sideWord? (.word "END_CONTEXT" :: rest) := (past_cons ..).mpr rfl
  have noItem : Past itemWord? (.word "END_CONTEXT" :: rest) := (past_cons ..).mpr rfl
  have namesLeft : sideWord? (.word "LEFT") = some true := rfl
  have namesRight : sideWord? (.word "RIGHT") = some false := rfl
  have sides := iterate_gatherStep namesLeft namesRight rfl rfl noItem noSide context.left
    context.right
  have filled : ¬ (context.left = [] ∧ context.right = []) :=
    fun none => formed.elim (· none.1) (· none.2)
  simp [contextStep, sideStep, ContextDefinition.lexemes, take?_cons word, sides, filled]

/-- A mapping is read back without its place. -/
theorem mapping?_reads (mapping : Mapping) :
    ReadsAlways mapping? mapping.lexemes (some mapping.unplaced) := by
  intro rest _
  have output := coverage_reads mapping.output (.word "END_SUB" :: rest) ((past_cons ..).mpr rfl)
  have input := coverage_reads mapping.input
    (.word "WITH" :: (coverageLexemes mapping.output ++ .word "END_SUB" :: rest))
    ((past_cons ..).mpr rfl)
  simp [mapping?, Mapping.lexemes, take?_cons (isKeyword_self "SUB"), input, output,
    Mapping.unplaced]

/-- A payload is read back, a substitution with the kind that it has. -/
theorem payload_reads {reversal : Bool} {value : Payload} (formed : value.WellFormed reversal) :
    ReadsAlways (payload reversal) value.lexemes value.unplaced := by
  intro rest _
  cases value with
  | substitution value =>
      have word : payloadWord? (.word "AS_SUBSTITUTION") = some true := rfl
      have stop : mapping? (ofLexemes (.word "END_SUBSTITUTION" :: rest)) =
          .ok (none, ofLexemes (.word "END_SUBSTITUTION" :: rest)) := by
        have past : Past (isKeyword "SUB") (.word "END_SUBSTITUTION" :: rest) :=
          (past_cons ..).mpr rfl
        simp [mapping?, take?_past past]
      have mappings := many_reads Mapping.lexemes Mapping.unplaced value.mappings
        (fun mapping _ => mapping?_reads mapping) (by simp [Mapping.lexemes]) (by simp) trivial stop
      have kind := (value.ofMappings?_eq_some_iff reversal).mpr formed
      simp [payload, Payload.lexemes, Substitution.lexemes, take_cons word, substitution, mappings,
        ofMappings?_unplaced, kind, Payload.unplaced, Substitution.unplaced]
  | positioning value =>
      have word : payloadWord? (.word "AS_POSITION") = some false := rfl
      have read := positioning_reads formed rest trivial
      rw [List.append_assoc, List.singleton_append] at read
      simp [payload, Payload.lexemes, take_cons word, read, Payload.unplaced]

/-- A payload begins with one of two keywords. -/
theorem past_payload_append
    {α : Type}
    (read : Lexeme → Option α)
    (noSubstitution : read (.word "AS_SUBSTITUTION") = none)
    (noPosition : read (.word "AS_POSITION") = none)
    (value : Payload)
    (rest : List Lexeme) :
    Past read (value.lexemes ++ rest) := by
  cases value with
  | substitution value => exact (past_cons ..).mpr noSubstitution
  | positioning value => exact (past_cons ..).mpr noPosition

/-- All contexts are read back, up to a word that opens none. -/
theorem iterate_contexts
    {contexts : List ContextDefinition} {rest : List Lexeme}
    (formed : ∀ context ∈ contexts, context.WellFormed)
    (past : Past contextWord? rest) :
    iterate contextStep [] (ofLexemes (contexts.flatMap ContextDefinition.lexemes ++ rest)) =
      .ok (contexts.reverse, ofLexemes rest) := by
  have stop (found : List ContextDefinition) :
      contextStep found (ofLexemes rest) = .ok (none, ofLexemes rest) := by
    simp [contextStep, take?_past past]
  rw [iterate_reads (fun context member found => contextStep_reads (formed context member) found)
      (by simp [ContextDefinition.lexemes]) (by simp) trivial, iterate_stop (stop _)]
  simp

/-- The options of a lookup are read one after the other. -/
theorem iterate_options
    {definition : LookupDefinition} {rest : List Lexeme}
    (formed : definition.WellFormed)
    (past : Past optionWord? rest) :
    iterate optionStep {}
        (ofLexemes (baseLexemes definition.processBase ++
          (definition.marks.lexemes ++
            (directionLexemes definition.direction ++
              (reversalLexemes definition.reversal ++
                (commentLexemes definition.comments ++ rest)))))) =
      .ok (⟨definition.processBase, definition.marks, definition.direction, definition.reversal,
        definition.comments⟩, ofLexemes rest) := by
  have stop (options : LookupOptions) :
      optionStep options (ofLexemes rest) = .ok (none, ofLexemes rest) := by
    simp [optionStep, take?_past past]
  rw [iterate_base, iterate_marks, iterate_direction _ _ _ rfl, iterate_reversal _ _ _ rfl,
    iterate_comments _ _ _ rfl formed.comments, iterate_stop (stop _)]

/-- A lookup is read back behind its opening word. -/
theorem lookup_reads {definition : LookupDefinition} (formed : definition.WellFormed) :
    ReadsAlways (lookup .start) definition.lexemes.tail definition.unplaced := by
  intro rest _
  have noContext := past_payload_append contextWord? rfl rfl definition.payload rest
  have noOption : Past optionWord? (definition.contexts.flatMap ContextDefinition.lexemes ++
      (definition.payload.lexemes ++ rest)) :=
    past_flatMap_append
      (fun context _ _ => (past_cons ..).mpr (by cases context.kind <;> rfl))
      (past_payload_append optionWord? rfl rfl definition.payload rest)
  have options := iterate_options formed noOption
  have contexts := iterate_contexts formed.contexts noContext
  have payload := payload_reads formed.payload rest trivial
  simp [lookup, LookupDefinition.lexemes, options, contexts, payload, LookupDefinition.unplaced]

/-! ## Glyphs, groups and anchors -/

/-- One code point is read back from a number, and several from a quoted list. -/
theorem glyphCodePoints_reads (values : List UInt32) :
    Reads (Past codePointWord?) glyphCodePoints (codePointLexemes values) values := by
  intro rest past
  match values with
  | [] => simp [codePointLexemes, glyphCodePoints, take?_past past]
  | [value] =>
      have word : codePointWord? (.word "UNICODE") = some true := rfl
      have read : Parser.word "a unicode value" (fun text => Text.uint32? 10 text.toList)
          (ofLexemes (.numeral value.toNat :: rest)) = .ok (value, ofLexemes rest) :=
        word_cons (Text.uint32?_decimal value) _ rest
      simp [codePointLexemes, glyphCodePoints, take?_cons word, read]
  | first :: second :: others =>
      have word : codePointWord? (.word "UNICODEVALUES") = some false := rfl
      have read := codePoints_codePointsText (List.cons_ne_nil first (second :: others))
      have text : quotedWithPlace (ofLexemes
          (.quoted (codePointsText (first :: second :: others)) :: rest)) =
            .ok ((codePointsText (first :: second :: others), .start), ofLexemes rest) := rfl
      simp [codePointLexemes, glyphCodePoints, take?_cons word, text, read]

/-- A part that may be missing is read back, up to a word other than its mark. -/
theorem optional_reads
    {α : Type} {part : Parser α} {write : α → Lexeme}
    (reads : ∀ value rest, part (ofLexemes (write value :: rest)) = .ok (value, ofLexemes rest))
    (mark : String)
    (value : Option α) :
    Reads (Past (isKeyword mark)) (optional mark part) (optionalLexemes mark write value)
      value := by
  intro rest past
  cases value with
  | none => simp [optional, optionalLexemes, keyword?_past past]
  | some value => simp [optional, optionalLexemes, reads]

theorem past_optional_append
    {α β : Type}
    {read : Lexeme → Option β} {rest : List Lexeme}
    (mark : String)
    (other : read (.word mark) = none)
    (behind : Past read rest)
    (write : α → Lexeme)
    (value : Option α) :
    Past read (optionalLexemes mark write value ++ rest) := by
  cases value with
  | none => exact behind
  | some value => exact (past_cons ..).mpr other

/-- The definition of a glyph is read back behind its opening word. -/
theorem glyph_reads (definition : GlyphDefinition) :
    ReadsAlways (glyph .start) definition.lexemes.tail definition.unplaced := by
  intro rest _
  have kinds (kind : GlyphKind) (later : List Lexeme) :
      word "a glyph type" glyphKind? (ofLexemes (.word kind.keyword :: later)) =
        .ok (kind, ofLexemes later) :=
    word_cons (by cases kind <;> rfl) _ later
  have noCount : Past (isKeyword "COMPONENTS") (.word "END_GLYPH" :: rest) := (past_cons ..).mpr rfl
  have countOrLast {α : Type} {read : Lexeme → Option α}
      (notCount : read (.word "COMPONENTS") = none) (notLast : read (.word "END_GLYPH") = none) :
      Past read (optionalLexemes "COMPONENTS" (fun count => .numeral count.toNat)
        definition.components ++ .word "END_GLYPH" :: rest) :=
    past_optional_append "COMPONENTS" notCount ((past_cons ..).mpr notLast) _ _
  have noKind := countOrLast (rfl : isKeyword "TYPE" _ = none) rfl
  have noCodePoint := past_optional_append "TYPE" rfl
    (countOrLast (rfl : codePointWord? _ = none) rfl)
    (fun kind : GlyphKind => .word kind.keyword) definition.kind
  have components := optional_reads (uint16_cons "a component count") "COMPONENTS"
    definition.components _ noCount
  have kind := optional_reads kinds "TYPE" definition.kind _ noKind
  have codePoints := glyphCodePoints_reads definition.codePoints _ noCodePoint
  simp [glyph, GlyphDefinition.lexemes, codePoints, kind, components, GlyphDefinition.unplaced]

theorem group_reads (definition : GroupDefinition) :
    ReadsAlways (group .start) definition.lexemes.tail definition.unplaced := by
  intro rest _
  have members := coverage_reads definition.members (.word "END_ENUM" :: .word "END_GROUP" :: rest)
    ((past_cons ..).mpr rfl)
  simp [group, GroupDefinition.lexemes, optional, members, GroupDefinition.unplaced]

/-- An anchor is read back behind its opening word. -/
theorem anchor_reads {definition : AnchorDefinition} (formed : definition.WellFormed) :
    ReadsAlways (anchor .start) definition.lexemes.tail definition.unplaced := by
  intro rest _
  have read := placement_reads formed (.word "END_ANCHOR" :: rest) trivial
  have locked : keyword? "LOCKED" (ofLexemes (lockedLexemes definition.locked ++
      .word "AT" :: (definition.placement.lexemes ++ .word "END_ANCHOR" :: rest))) =
        .ok (definition.locked, ofLexemes (.word "AT" ::
          (definition.placement.lexemes ++ .word "END_ANCHOR" :: rest))) := by
    cases definition.locked with
    | true => simp [lockedLexemes]
    | false => exact keyword?_past ((past_cons ..).mpr rfl)
  simp [anchor, AnchorDefinition.lexemes, locked, read, AnchorDefinition.unplaced]

/-! ## Scripts -/

@[simp] theorem tag_cons (value : Tag) (rest : List Lexeme) :
    tag (ofLexemes (.quoted value.padded :: rest)) = .ok (value, ofLexemes rest) := by
  have read : quotedWithPlace (ofLexemes (.quoted value.padded :: rest)) =
      .ok ((value.padded, .start), ofLexemes rest) := rfl
  simp [tag, read, ofString_padded]

theorem title_reads (title : Option String) (rest : List Lexeme) :
    optional "NAME" quoted
        (ofLexemes (optionalLexemes "NAME" .quoted title ++ .word "TAG" :: rest)) =
      .ok (title, ofLexemes (.word "TAG" :: rest)) :=
  optional_reads quoted_cons "NAME" title _ ((past_cons ..).mpr rfl)

theorem featureLookup?_reads (name : String) :
    ReadsAlways featureLookup? (lookupUseLexemes name) (some name) := by
  intro rest _
  simp [featureLookup?, optional, lookupUseLexemes]

/-- A feature is read back with the lookups that it uses. -/
theorem feature?_reads (definition : FeatureDefinition) :
    ReadsAlways feature? definition.lexemes (some definition.unplaced) := by
  intro rest _
  have stop : featureLookup? (ofLexemes (.word "END_FEATURE" :: rest)) =
      .ok (none, ofLexemes (.word "END_FEATURE" :: rest)) := by
    have past : Past (isKeyword "LOOKUP") (.word "END_FEATURE" :: rest) := (past_cons ..).mpr rfl
    simp [featureLookup?, optional, keyword?_past past]
  have lookups := many_reads lookupUseLexemes id definition.lookups
    (fun name _ => featureLookup?_reads name) (by simp [lookupUseLexemes]) (by simp) trivial stop
  simp [feature?, FeatureDefinition.lexemes, headingLexemes,
    take?_cons (isKeyword_self "DEF_FEATURE"), title_reads, lookups, FeatureDefinition.unplaced]

theorem language?_reads (definition : LanguageDefinition) :
    ReadsAlways language? definition.lexemes (some definition.unplaced) := by
  intro rest _
  have stop : feature? (ofLexemes (.word "END_LANGSYS" :: rest)) =
      .ok (none, ofLexemes (.word "END_LANGSYS" :: rest)) := by
    have past : Past (isKeyword "DEF_FEATURE") (.word "END_LANGSYS" :: rest) :=
      (past_cons ..).mpr rfl
    simp [feature?, take?_past past]
  have features := many_reads FeatureDefinition.lexemes FeatureDefinition.unplaced
    definition.features (fun feature _ => feature?_reads feature)
    (by simp [FeatureDefinition.lexemes]) (by simp) trivial stop
  simp [language?, LanguageDefinition.lexemes, headingLexemes,
    take?_cons (isKeyword_self "DEF_LANGSYS"), title_reads, features, LanguageDefinition.unplaced]

/-- A script is read back with its languages. -/
theorem script_reads (definition : ScriptDefinition) :
    ReadsAlways (script .start) definition.lexemes.tail definition.unplaced := by
  intro rest _
  have stop : language? (ofLexemes (.word "END_SCRIPT" :: rest)) =
      .ok (none, ofLexemes (.word "END_SCRIPT" :: rest)) := by
    have past : Past (isKeyword "DEF_LANGSYS") (.word "END_SCRIPT" :: rest) :=
      (past_cons ..).mpr rfl
    simp [language?, take?_past past]
  have languages := many_reads LanguageDefinition.lexemes LanguageDefinition.unplaced
    definition.languages (fun language _ => language?_reads language)
    (by simp [LanguageDefinition.lexemes]) (by simp) trivial stop
  simp [script, ScriptDefinition.lexemes, headingLexemes, title_reads, languages,
    ScriptDefinition.unplaced]

/-! ## Settings -/

/-- A setting is read back if no numeral comes behind it. -/
theorem setting_reads {definition : Setting} (formed : definition.WellFormed) :
    Reads (Past numeralWord?) (setting definition.name .start) definition.lexemes.tail
      definition.unplaced := by
  intro rest past
  have name : definition.name.toList.all isSettingChar = true :=
    List.all_eq_true.mpr formed.characters
  have reads (value : Int32) : ReadsAlways (numeral? "a setting value" Text.int32?)
      [.numeral value.toInt] (some value) := by
    intro later _
    exact numeral?_cons (Text.isNumeral_decimal_int32 value) (Text.int32?_decimal value) _ later
  have values := many_reads (fun value : Int32 => [.numeral value.toInt]) id definition.values
    (fun value _ => reads value) (by simp) (by simp) trivial
    (numeral?_past past "a setting value" Text.int32?)
  rw [← List.map_eq_flatMap, List.map_id] at values
  simp [setting, name, Setting.lexemes, values, Setting.unplaced]

/-! ## Statements -/

/-- What stands behind a statement does not go on with it. -/
def Behind : Statement → List Lexeme → Prop
  | .setting _, rest => Past numeralWord? rest
  | _, _ => True

/-- A statement is read back behind its opening word. -/
theorem statement_reads {value : Statement} (formed : value.Proper) :
    Reads (Behind value) (statement value.opening .start) value.lexemes.tail
      value.unplaced := by
  intro rest behind
  cases value with
  | glyph definition =>
      have read := glyph_reads definition rest trivial
      simp [Statement.opening, statement, Statement.lexemes, read, Statement.unplaced]
  | group definition =>
      have read := group_reads definition rest trivial
      simp [Statement.opening, statement, Statement.lexemes, read, Statement.unplaced]
  | script definition =>
      have read := script_reads definition rest trivial
      simp [Statement.opening, statement, Statement.lexemes, read, Statement.unplaced]
  | lookup definition =>
      have read := lookup_reads formed rest trivial
      simp [Statement.opening, statement, Statement.lexemes, read, Statement.unplaced]
  | anchor definition =>
      have read := anchor_reads formed rest trivial
      simp [Statement.opening, statement, Statement.lexemes, read, Statement.unplaced]
  | setting definition =>
      have read := setting_reads formed rest behind
      have free := statement_of_free (Setting.WellFormed.free formed) .start
      simp [Statement.opening, free, Statement.lexemes, read, Statement.unplaced]

/-- No statement opens with the word that ends a source. -/
theorem opening_ne_end {value : Statement} (formed : value.Proper) :
    value.opening ≠ "END" := by
  cases value with
  | setting definition =>
      rintro same
      exact Setting.WellFormed.free formed (by simp_all [Statement.opening, openingWords])
  | _ => simp [Statement.opening]

/-- A statement is read back from its opening word on. -/
theorem statement?_reads {value : Statement} (formed : value.Proper) :
    Reads (Behind value) statement? value.lexemes (some value.unplaced) := by
  intro rest behind
  have opening : opening? (ofLexemes (.word value.opening :: (value.lexemes.tail ++ rest))) =
      .ok (some (value.opening, .start), ofLexemes (value.lexemes.tail ++ rest)) := rfl
  rw [value.lexemes_eq_cons, statement?_eq, List.cons_append]
  simp [opening, opening_ne_end formed, statement_reads formed rest behind]

/-- A source ends at its closing word. -/
theorem statement?_end :
    statement? (ofLexemes [.word "END"]) = .ok (none, ofLexemes []) := rfl

/-- What stands behind a statement of a source whose neighbours are apart. -/
theorem behind_of_apart
    {value : Statement} {values : List Statement}
    (apart : (value :: values).IsChain Statement.Apart) :
    Behind value (sourceLexemes values) := by
  cases value with
  | setting definition =>
      cases values with
      | nil => exact (past_cons ..).mpr rfl
      | cons next values =>
          rw [sourceLexemes, List.flatMap_cons, next.lexemes_eq_cons]
          refine (past_cons ..).mpr ?_
          have keywords : ∀ mark ∈ openingWords, Text.isNumeral mark = false := by decide
          have notNumeral : Text.isNumeral next.opening = false := by
            cases next with
            | setting other => exact (List.isChain_cons_cons.mp apart).1
            | _ => exact keywords _ (by simp [Statement.opening, openingWords])
          simp [numeralWord?, notNumeral]
  | _ => trivial

/-- The statements of a source are read one after the other. -/
theorem iterate_statements
    {values : List Statement}
    (each : ∀ value ∈ values, value.Proper)
    (apart : values.IsChain Statement.Apart)
    (found : List Statement) :
    iterate (fun found => do return (← statement?).map (· :: found)) found
        (ofLexemes (sourceLexemes values)) =
      .ok ((values.map Statement.unplaced).reverse ++ found, ofLexemes []) := by
  induction values generalizing found with
  | nil => exact iterate_stop (by simp [sourceLexemes, statement?_end])
  | cons value values ih =>
      obtain ⟨first, later⟩ := List.forall_mem_cons.mp each
      have read := statement?_reads first _ (behind_of_apart apart)
      have goesOn : (do return (← statement?).map (· :: found) : Parser (Option (List Statement)))
          (ofLexemes (value.lexemes ++ sourceLexemes values)) =
            .ok (some (value.unplaced :: found), ofLexemes (sourceLexemes values)) := by
        simp [read]
      have filled : value.lexemes ≠ [] := by
        rw [value.lexemes_eq_cons]
        exact List.cons_ne_nil _ _
      rw [sourceLexemes, List.flatMap_cons, List.append_assoc]
      change iterate _ found (ofLexemes (value.lexemes ++ sourceLexemes values)) = _
      rw [iterate_next goesOn filled, ih later apart.tail]
      simp

/-- A well-formed source is read as its statements, without their places. -/
theorem statements_read {values : List Statement} (formed : WellFormed values) :
    statements (ofLexemes (sourceLexemes values)) =
      .ok (values.map Statement.unplaced, ofLexemes []) := by
  have proper : ∀ value ∈ values, value.Proper :=
    fun value member => (formed.each value member).proper
  rw [statements, many, bind_apply, iterate_statements proper formed.apart]
  simp

end Parser
end Source
end GlyphLayout
