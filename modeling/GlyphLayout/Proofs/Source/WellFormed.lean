import GlyphLayout.Proofs.Source.Lexing
import GlyphLayout.Proofs.Source.Numerals
import GlyphLayout.Source.Parsing.Statement
import Mathlib.Data.List.Chain

/-!
# Well-formed sources

What the lists of statements have in common that can be written as a source and read back.
The widths of integers and the characters of tags are part of the types; the rest is stated
here.
-/

namespace GlyphLayout
namespace Source

/-! ## Quoted texts -/

/-- The characters between the quotation marks of a lexeme that has them. -/
def Lexeme.quotedText : Lexeme → List Char
  | quoted text => text.toList
  | word _ | unclosed _ => []

/-- No quoted text holds a quotation mark. -/
def Unquoted (lexemes : List Lexeme) : Prop :=
  ∀ lexeme ∈ lexemes, '"' ∉ lexeme.quotedText

@[simp] theorem unquoted_nil : Unquoted [] := by simp [Unquoted]

@[simp] theorem unquoted_word_cons (text : String) (lexemes : List Lexeme) :
    Unquoted (.word text :: lexemes) ↔ Unquoted lexemes := by
  simp [Unquoted, Lexeme.quotedText]

@[simp] theorem unquoted_numeral_cons (value : Int) (lexemes : List Lexeme) :
    Unquoted (.numeral value :: lexemes) ↔ Unquoted lexemes :=
  unquoted_word_cons ..

@[simp] theorem unquoted_quoted_cons (text : String) (lexemes : List Lexeme) :
    Unquoted (.quoted text :: lexemes) ↔ '"' ∉ text.toList ∧ Unquoted lexemes :=
  List.forall_mem_cons

@[simp] theorem unquoted_append (first second : List Lexeme) :
    Unquoted (first ++ second) ↔ Unquoted first ∧ Unquoted second :=
  List.forall_mem_append

/-- The lexemes of several items are without quotation marks if those of each are. -/
@[simp] theorem unquoted_flatMap {α : Type} (write : α → List Lexeme) (items : List α) :
    Unquoted (items.flatMap write) ↔ ∀ item ∈ items, Unquoted (write item) :=
  List.forall_mem_flatMap

/-! ## Conditions on statements -/

/-- Device adjustments are given for values that are present, and for no others. -/
structure Placement.WellFormed (placement : Placement) : Prop where
  advance : placement.advance = none → placement.advanceDevices = []
  dx : placement.dx = none → placement.xDevices = []
  dy : placement.dy = none → placement.yDevices = []

/-- The placements are well-formed. -/
def Positioning.WellFormed : Positioning → Prop
  | pairs _ _ adjustments => ∀ adjustment ∈ adjustments,
      adjustment.firstPlacement.WellFormed ∧ adjustment.secondPlacement.WellFormed
  | singles adjustments => ∀ adjustment ∈ adjustments, adjustment.2.WellFormed
  | attach _ _ => True
  | cursive _ _ => True

/-- Some mapping replaces several items at once. -/
def Substitution.JoinsItems (substitution : Substitution) : Prop :=
  ∃ mapping ∈ substitution.mappings, 1 < mapping.input.length

/-- Some mapping puts several items in. -/
def Substitution.SplitsItems (substitution : Substitution) : Prop :=
  ∃ mapping ∈ substitution.mappings, 1 < mapping.output.length

instance (substitution : Substitution) : Decidable substitution.JoinsItems :=
  inferInstanceAs (Decidable (∃ _ ∈ _, _))

instance (substitution : Substitution) : Decidable substitution.SplitsItems :=
  inferInstanceAs (Decidable (∃ _ ∈ _, _))

/-- Only one side has several items, and the kind is the one that the lengths make it. -/
structure Substitution.WellFormed (reversal : Bool) (substitution : Substitution) : Prop where
  oneSided : ¬ (substitution.JoinsItems ∧ substitution.SplitsItems)
  kind : substitution.kind =
    if reversal then .reverse
    else if substitution.JoinsItems then .ligature
    else if substitution.SplitsItems then .multiple
    else .single

def Payload.WellFormed (reversal : Bool) : Payload → Prop
  | substitution value => value.WellFormed reversal
  | positioning value => value.WellFormed

/-- A context has a coverage on one of its sides. -/
def ContextDefinition.WellFormed (context : ContextDefinition) : Prop :=
  context.left ≠ [] ∨ context.right ≠ []

/-- The text has no backslash with an `n` behind it. -/
def HasNoEscape (text : List Char) : Prop :=
  ¬ ['\\', 'n'] <:+: text

structure LookupDefinition.WellFormed (lookup : LookupDefinition) : Prop where
  comments : ∀ comments ∈ lookup.comments, HasNoEscape comments.toList
  contexts : ∀ context ∈ lookup.contexts, context.WellFormed
  payload : lookup.payload.WellFormed lookup.reversal

def AnchorDefinition.WellFormed (anchor : AnchorDefinition) : Prop :=
  anchor.placement.WellFormed

/-- The words that open another statement than a setting, or close the source. -/
def openingWords : List String :=
  ["END", "DEF_GLYPH", "DEF_GROUP", "DEF_SCRIPT", "DEF_LOOKUP", "DEF_ANCHOR"]

/-- The name is a word of capital letters, digits and underscores, and opens nothing else. -/
structure Setting.WellFormed (setting : Setting) : Prop where
  filled : setting.name.toList ≠ []
  characters : ∀ c ∈ setting.name.toList, isSettingChar c = true
  free : setting.name ∉ openingWords

/-- The definition of a statement is well-formed. -/
def Statement.Proper : Statement → Prop
  | lookup definition => definition.WellFormed
  | anchor definition => definition.WellFormed
  | setting definition => definition.WellFormed
  | glyph _ | group _ | script _ => True

/-- The definition is well-formed, and no text that is to be quoted holds a quotation mark. -/
structure Statement.WellFormed (statement : Statement) : Prop where
  proper : statement.Proper
  unquoted : Unquoted statement.lexemes

/-- The name of a setting behind a setting cannot be taken for one of its values. -/
def Statement.Apart : Statement → Statement → Prop
  | setting _, setting next => Text.isNumeral next.name = false
  | _, _ => True

/-- Each statement is well-formed, and neighbours can be told apart. -/
structure WellFormed (statements : List Statement) : Prop where
  each : ∀ statement ∈ statements, statement.WellFormed
  apart : statements.IsChain Statement.Apart

/-! ## Deciding well-formedness -/

instance (lexemes : List Lexeme) : Decidable (Unquoted lexemes) :=
  inferInstanceAs (Decidable (∀ _ ∈ lexemes, _ ∉ _))

instance (placement : Placement) : Decidable placement.WellFormed :=
  decidable_of_iff
    ((placement.advance = none → placement.advanceDevices = []) ∧
      (placement.dx = none → placement.xDevices = []) ∧
      (placement.dy = none → placement.yDevices = []))
    ⟨fun ⟨advance, dx, dy⟩ => ⟨advance, dx, dy⟩,
      fun formed => ⟨formed.advance, formed.dx, formed.dy⟩⟩

instance : DecidablePred Positioning.WellFormed
  | .pairs _ _ adjustments => inferInstanceAs (Decidable (∀ _ ∈ adjustments, _ ∧ _))
  | .singles adjustments =>
      inferInstanceAs (Decidable (∀ adjustment ∈ adjustments, adjustment.2.WellFormed))
  | .attach _ _ | .cursive _ _ => isTrue trivial

instance (reversal : Bool) (substitution : Substitution) :
    Decidable (substitution.WellFormed reversal) :=
  decidable_of_iff
    (¬ (substitution.JoinsItems ∧ substitution.SplitsItems) ∧
      substitution.kind =
        if reversal then .reverse
        else if substitution.JoinsItems then .ligature
        else if substitution.SplitsItems then .multiple
        else .single)
    ⟨fun ⟨oneSided, kind⟩ => ⟨oneSided, kind⟩, fun formed => ⟨formed.oneSided, formed.kind⟩⟩

instance (reversal : Bool) : DecidablePred (Payload.WellFormed reversal)
  | .substitution value => inferInstanceAs (Decidable (value.WellFormed reversal))
  | .positioning value => inferInstanceAs (Decidable value.WellFormed)

instance (context : ContextDefinition) : Decidable context.WellFormed :=
  decidable_of_iff (¬ (context.left.isEmpty && context.right.isEmpty) = true)
    (by simp [ContextDefinition.WellFormed, ← not_and_or])

instance (text : List Char) : Decidable (HasNoEscape text) :=
  inferInstanceAs (Decidable (¬ _))

instance (lookup : LookupDefinition) : Decidable lookup.WellFormed :=
  decidable_of_iff
    ((∀ comments ∈ lookup.comments, HasNoEscape comments.toList) ∧
      (∀ context ∈ lookup.contexts, context.WellFormed) ∧
      lookup.payload.WellFormed lookup.reversal)
    ⟨fun ⟨comments, contexts, payload⟩ => ⟨comments, contexts, payload⟩,
      fun formed => ⟨formed.comments, formed.contexts, formed.payload⟩⟩

instance (setting : Setting) : Decidable setting.WellFormed :=
  decidable_of_iff
    (setting.name.toList ≠ [] ∧ setting.name.toList.all isSettingChar = true ∧
      setting.name ∉ openingWords)
    ⟨fun ⟨filled, characters, free⟩ => ⟨filled, List.all_eq_true.mp characters, free⟩,
      fun formed => ⟨formed.filled, List.all_eq_true.mpr formed.characters, formed.free⟩⟩

instance : DecidablePred Statement.Proper
  | .lookup definition => inferInstanceAs (Decidable definition.WellFormed)
  | .anchor definition => inferInstanceAs (Decidable definition.placement.WellFormed)
  | .setting definition => inferInstanceAs (Decidable definition.WellFormed)
  | .glyph _ | .group _ | .script _ => isTrue trivial

instance (statement : Statement) : Decidable statement.WellFormed :=
  decidable_of_iff (statement.Proper ∧ Unquoted statement.lexemes)
    ⟨fun ⟨proper, unquoted⟩ => ⟨proper, unquoted⟩, fun formed => ⟨formed.proper, formed.unquoted⟩⟩

instance : DecidableRel Statement.Apart
  | .setting _, .setting next => inferInstanceAs (Decidable (Text.isNumeral next.name = false))
  | .setting _, .glyph _ | .setting _, .group _ | .setting _, .script _ | .setting _, .lookup _
  | .setting _, .anchor _ => isTrue trivial
  | .glyph _, _ | .group _, _ | .script _, _ | .lookup _, _ | .anchor _, _ => isTrue trivial

instance (statements : List Statement) : Decidable (WellFormed statements) :=
  decidable_of_iff
    ((∀ statement ∈ statements, statement.WellFormed) ∧ statements.IsChain Statement.Apart)
    ⟨fun ⟨each, apart⟩ => ⟨each, apart⟩, fun formed => ⟨formed.each, formed.apart⟩⟩

/-! ## Written words -/

/-- The lexeme can be written: a word, or a string with both its quotation marks. -/
def Lexeme.Writable : Lexeme → Prop
  | word text => IsWord text
  | quoted _ => True
  | unclosed _ => False

/-- The lexemes can be written. -/
def Worded (lexemes : List Lexeme) : Prop :=
  ∀ lexeme ∈ lexemes, lexeme.Writable

@[simp] theorem worded_nil : Worded [] := by simp [Worded]

@[simp] theorem worded_word_cons (text : String) (lexemes : List Lexeme) :
    Worded (.word text :: lexemes) ↔ IsWord text ∧ Worded lexemes :=
  List.forall_mem_cons

@[simp] theorem worded_quoted_cons (text : String) (lexemes : List Lexeme) :
    Worded (.quoted text :: lexemes) ↔ Worded lexemes :=
  List.forall_mem_cons.trans (and_iff_right trivial)

/-- A number is written as a word. -/
theorem isWord_decimal (value : Int) : IsWord (Text.decimal value) := by
  refine ⟨Text.decimal_ne_nil value, fun c member => ?_⟩
  rcases Text.isDigit_of_mem_decimal member with rfl | digit
  · rfl
  · exact isWordChar_of_isDigit digit

@[simp] theorem worded_numeral_cons (value : Int) (lexemes : List Lexeme) :
    Worded (.numeral value :: lexemes) ↔ Worded lexemes :=
  List.forall_mem_cons.trans (and_iff_right (isWord_decimal value))

@[simp] theorem worded_append (first second : List Lexeme) :
    Worded (first ++ second) ↔ Worded first ∧ Worded second :=
  List.forall_mem_append

@[simp] theorem worded_flatMap {α : Type} (write : α → List Lexeme) (items : List α) :
    Worded (items.flatMap write) ↔ ∀ item ∈ items, Worded (write item) :=
  List.forall_mem_flatMap

/-- Lexemes that can be written are complete if no string holds a quotation mark. -/
theorem complete_of_worded
    {lexemes : List Lexeme}
    (worded : Worded lexemes)
    (unquoted : Unquoted lexemes) :
    ∀ lexeme ∈ lexemes, lexeme.Complete := by
  intro lexeme member
  have writable := worded lexeme member
  cases lexeme with
  | word text => exact writable
  | quoted text => exact unquoted _ member
  | unclosed text => exact writable

/-- What may stand in the name of a setting may stand in a word. -/
theorem isWordChar_of_isSettingChar {c : Char} (setting : isSettingChar c = true) :
    isWordChar c = true := by
  simp only [isSettingChar, Bool.or_eq_true, beq_iff_eq] at setting
  rcases setting with (upper | digit) | rfl
  · have range : 'A'.val ≤ c.val ∧ c.val ≤ 'Z'.val := of_decide_eq_true upper
    have low : 65 ≤ c.toNat := UInt32.le_iff_toNat_le.mp range.1
    exact isWordChar_of_lt (Nat.lt_of_lt_of_le (by decide) low)
  · exact isWordChar_of_isDigit digit
  · rfl

mutual

/-- All items of a coverage can be written, down to the innermost. -/
theorem worded_item : ∀ item : CoverageItem, Worded item.lexemes
  | .glyph name => by simp +decide [CoverageItem.lexemes]
  | .group name => by simp +decide [CoverageItem.lexemes]
  | .range first last => by simp +decide [CoverageItem.lexemes]
  | .enumeration items => by simp +decide [CoverageItem.lexemes, worded_coverage items]

theorem worded_coverage : ∀ coverage : List CoverageItem, Worded (coverageLexemes coverage)
  | [] => worded_nil
  | item :: items => by
      simp [coverageLexemes, worded_item item, worded_coverage items]

end

theorem worded_coveragesAfter {mark : String} (word : IsWord mark) (coverages : List Coverage) :
    Worded (coveragesAfter mark coverages) := by
  simp [coveragesAfter, word, worded_coverage]

/-- A value can be written with its devices. -/
theorem worded_value
    {mark : String}
    (word : IsWord mark)
    (devices : List DeviceAdjustment)
    (value : Option Int16) :
    Worded (valueLexemes mark devices value) := by
  cases value <;> simp +decide [valueLexemes, word, deviceLexemes]

theorem worded_placement (placement : Placement) : Worded placement.lexemes := by
  simp +decide [Placement.lexemes, worded_value]

theorem worded_context (context : ContextDefinition) : Worded context.lexemes := by
  have keyword : IsWord context.kind.keyword := by cases context.kind <;> decide
  simp +decide [ContextDefinition.lexemes, keyword, worded_coveragesAfter]

theorem worded_mapping (mapping : Mapping) : Worded mapping.lexemes := by
  simp +decide [Mapping.lexemes, worded_coverage]

theorem worded_positioning (positioning : Positioning) : Worded positioning.lexemes := by
  cases positioning with
  | pairs first second adjustments =>
      simp +decide [Positioning.lexemes, PairAdjustment.lexemes, worded_placement,
        worded_coveragesAfter]
  | singles adjustments =>
      simp +decide [Positioning.lexemes, singleLexemes, worded_coverage, worded_placement]
  | attach bases marks => simp +decide [Positioning.lexemes, attachedLexemes, worded_coverage]
  | cursive exits entries => simp +decide [Positioning.lexemes, worded_coveragesAfter]

/-- Each kind of payload can be written. -/
theorem worded_payload (payload : Payload) : Worded payload.lexemes := by
  cases payload with
  | substitution value => simp +decide [Payload.lexemes, Substitution.lexemes, worded_mapping]
  | positioning value => simp +decide [Payload.lexemes, worded_positioning]

/-- A lookup can be written, whatever its options. -/
theorem worded_lookup (lookup : LookupDefinition) : Worded lookup.lexemes := by
  have base : Worded (baseLexemes lookup.processBase) := by
    cases lookup.processBase <;> simp +decide [baseLexemes]
  have marks : Worded lookup.marks.lexemes := by
    cases lookup.marks <;> simp +decide [MarkFilter.lexemes]
  have direction : Worded (directionLexemes lookup.direction) := by
    rcases lookup.direction with _ | _ | _ <;> simp +decide [directionLexemes]
  have reversal : Worded (reversalLexemes lookup.reversal) := by
    cases lookup.reversal <;> simp +decide [reversalLexemes]
  have comments : Worded (commentLexemes lookup.comments) := by
    cases lookup.comments <;> simp +decide [commentLexemes]
  simp +decide [LookupDefinition.lexemes, base, marks, direction, reversal, comments,
    worded_context, worded_payload]

/-- A part that may be missing can be written behind its mark. -/
theorem worded_optional
    {α : Type}
    {mark : String}
    (write : α → Lexeme)
    (word : IsWord mark)
    (writable : ∀ value, (write value).Writable)
    (part : Option α) :
    Worded (optionalLexemes mark write part) := by
  cases part with
  | none => exact worded_nil
  | some value =>
      refine (worded_word_cons mark [write value]).mpr ⟨word, ?_⟩
      exact List.forall_mem_singleton.mpr (writable value)

/-- The definition of a glyph can be written. -/
theorem worded_glyph (glyph : GlyphDefinition) : Worded glyph.lexemes := by
  have codePoints : Worded (codePointLexemes glyph.codePoints) := by
    rcases glyph.codePoints with _ | ⟨_, _ | _⟩ <;> simp +decide [codePointLexemes]
  have kinds (kind : GlyphKind) : IsWord kind.keyword := by cases kind <;> decide
  have kind := worded_optional (fun kind => .word (GlyphKind.keyword kind))
    (by decide : IsWord "TYPE") kinds glyph.kind
  have components := worded_optional (fun count : UInt16 => .numeral count.toNat)
    (by decide : IsWord "COMPONENTS") (fun count => isWord_decimal count.toNat) glyph.components
  simp +decide [GlyphDefinition.lexemes, codePoints, kind, components]

theorem worded_group (group : GroupDefinition) : Worded group.lexemes := by
  simp +decide [GroupDefinition.lexemes, worded_coverage]

theorem worded_heading (title : Option String) (tag : Tag) :
    Worded (headingLexemes title tag) := by
  have named := worded_optional .quoted (by decide : IsWord "NAME") (fun _ => trivial) title
  simp +decide [headingLexemes, named]

/-- A script can be written with its languages and their features. -/
theorem worded_script (script : ScriptDefinition) : Worded script.lexemes := by
  have features (feature : FeatureDefinition) : Worded feature.lexemes := by
    simp +decide [FeatureDefinition.lexemes, worded_heading, lookupUseLexemes]
  have languages (language : LanguageDefinition) : Worded language.lexemes := by
    simp +decide [LanguageDefinition.lexemes, worded_heading, features]
  simp +decide [ScriptDefinition.lexemes, worded_heading, languages]

theorem worded_anchor (anchor : AnchorDefinition) : Worded anchor.lexemes := by
  have locked : Worded (lockedLexemes anchor.locked) := by
    cases anchor.locked <;> simp +decide [lockedLexemes]
  simp +decide [AnchorDefinition.lexemes, locked, worded_placement]

/-- The name of a setting is a word. -/
theorem worded_setting {setting : Setting} (formed : setting.WellFormed) :
    Worded setting.lexemes := by
  have name : IsWord setting.name :=
    ⟨formed.filled, fun c member => isWordChar_of_isSettingChar (formed.characters c member)⟩
  refine (worded_word_cons ..).mpr ⟨name, fun lexeme member => ?_⟩
  obtain ⟨value, -, rfl⟩ := List.mem_map.mp member
  exact isWord_decimal value.toInt

/-- A well-formed statement is written with words and strings alone. -/
theorem Statement.WellFormed.complete
    {statement : Statement}
    (formed : statement.WellFormed) :
    ∀ lexeme ∈ statement.lexemes, lexeme.Complete := by
  refine complete_of_worded ?_ formed.unquoted
  cases statement with
  | glyph definition => exact worded_glyph definition
  | group definition => exact worded_group definition
  | script definition => exact worded_script definition
  | lookup definition => exact worded_lookup definition
  | anchor definition => exact worded_anchor definition
  | setting definition => exact worded_setting formed.proper

/-! ## Opening words -/

/-- The word that opens a statement. -/
def Statement.opening : Statement → String
  | glyph _ => "DEF_GLYPH"
  | group _ => "DEF_GROUP"
  | script _ => "DEF_SCRIPT"
  | lookup _ => "DEF_LOOKUP"
  | anchor _ => "DEF_ANCHOR"
  | setting definition => definition.name

/-- Every statement begins with its opening word. -/
theorem Statement.lexemes_eq_cons (statement : Statement) :
    statement.lexemes = .word statement.opening :: statement.lexemes.tail := by
  cases statement <;> rfl

/-- A word that opens nothing else is read as the name of a setting. -/
theorem Parser.statement_of_free
    {name : String}
    (free : name ∉ openingWords)
    (location : Location) :
    statement name location = Statement.setting <$> setting name location := by
  unfold statement
  split
  · exact absurd (by decide) free
  · exact absurd (by decide) free
  · exact absurd (by decide) free
  · exact absurd (by decide) free
  · exact absurd (by decide) free
  · rfl

/-! ## Substitutions -/

/-- A coverage of several items makes the greatest length more than one. -/
theorem one_lt_greatestLength (coverages : List Coverage) :
    1 < greatestLength coverages ↔ ∃ coverage ∈ coverages, 1 < coverage.length := by
  have from_start (start : Nat) :
      1 < coverages.foldl (fun greatest coverage => max greatest coverage.length) start ↔
        1 < start ∨ ∃ coverage ∈ coverages, 1 < coverage.length := by
    induction coverages generalizing start with
    | nil => simp
    | cons coverage rest ih =>
        have either : 1 < max start coverage.length ↔ 1 < start ∨ 1 < coverage.length := by
          omega
        rw [List.foldl_cons, ih, either, or_assoc, List.exists_mem_cons_iff]
  rw [greatestLength, from_start]
  simp

/-- The kind that is read is the one that the statement has if it is well-formed. -/
theorem Substitution.ofMappings?_eq_some_iff
    (reversal : Bool)
    (substitution : Substitution) :
    SubstitutionKind.ofMappings? reversal substitution.mappings = some substitution.kind ↔
      substitution.WellFormed reversal := by
  have joins : 1 < greatestLength (substitution.mappings.map Mapping.input) ↔
      substitution.JoinsItems := by
    simp only [one_lt_greatestLength, List.mem_map, exists_exists_and_eq_and]
    rfl
  have splits : 1 < greatestLength (substitution.mappings.map Mapping.output) ↔
      substitution.SplitsItems := by
    simp only [one_lt_greatestLength, List.mem_map, exists_exists_and_eq_and]
    rfl
  have shape (kind : SubstitutionKind) :
      SubstitutionKind.ofMappings? reversal substitution.mappings = some kind ↔
        ¬ (substitution.JoinsItems ∧ substitution.SplitsItems) ∧
          kind = if reversal then .reverse
            else if substitution.JoinsItems then .ligature
            else if substitution.SplitsItems then .multiple
            else .single := by
    simp only [SubstitutionKind.ofMappings?, joins, splits]
    by_cases both : substitution.JoinsItems ∧ substitution.SplitsItems
    · simp [both]
    · rw [if_neg both, ← apply_ite some, ← apply_ite some, ← apply_ite some, Option.some_inj]
      exact ⟨fun same => ⟨both, same.symm⟩, fun same => same.2.symm⟩
  rw [shape]
  exact ⟨fun ⟨oneSided, kind⟩ => ⟨oneSided, kind⟩, fun formed => ⟨formed.oneSided, formed.kind⟩⟩

end Source
end GlyphLayout
