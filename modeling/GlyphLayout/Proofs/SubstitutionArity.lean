import GlyphLayout.Proofs.Compiling
import GlyphLayout.Proofs.Leaves
import GlyphLayout.Proofs.Routine
import GlyphLayout.Proofs.Source.Grammar

/-!
# Mappings and the kinds of their substitutions

A substitution has one kind, which the parser finds for all its mappings together, and a mapping
becomes a rule if it fits that kind by itself.  In a source that has been read, each mapping fits,
unless the lookup goes through texts from their end.
-/

namespace GlyphLayout
namespace Source

/-- The mapping says something: neither side is empty. -/
def Mapping.Filled (mapping : Mapping) : Prop :=
  mapping.input ≠ [] ∧ mapping.output ≠ []

instance (mapping : Mapping) : Decidable mapping.Filled :=
  inferInstanceAs (Decidable (¬ _ ∧ ¬ _))

/-- One item becomes one item. -/
def Mapping.OneToOne (mapping : Mapping) : Prop :=
  mapping.input.length = 1 ∧ mapping.output.length = 1

/-- A rule of the kind can have sides of the given lengths. -/
def SubstitutionKind.Fits : SubstitutionKind → Nat → Nat → Prop
  | single, input, output | reverse, input, output => input = 1 ∧ output = 1
  | multiple, input, _ => input = 1
  | ligature, _, output => output = 1

/-- The mappings of a lookup; one that positions glyphs has none. -/
def LookupDefinition.mappings (lookup : LookupDefinition) : List Mapping :=
  match lookup.payload with
  | .substitution substitution => substitution.mappings
  | .positioning _ => []

theorem LookupDefinition.mem_mappings_iff {lookup : LookupDefinition} {mapping : Mapping} :
    mapping ∈ lookup.mappings ↔
      ∃ substitution, lookup.payload = .substitution substitution
        ∧ mapping ∈ substitution.mappings := by
  unfold mappings
  split <;> rename_i payload <;> simp [payload]

theorem Mapping.Filled.length_pos {mapping : Mapping} (filled : mapping.Filled) :
    0 < mapping.input.length ∧ 0 < mapping.output.length :=
  ⟨List.length_pos_of_ne_nil filled.1, List.length_pos_of_ne_nil filled.2⟩

/-- A filled mapping has several items on a side unless it is from one item to one. -/
theorem Mapping.Filled.several_of_not_oneToOne
    {mapping : Mapping}
    (filled : mapping.Filled)
    (differs : ¬ mapping.OneToOne) :
    1 < mapping.input.length ∨ 1 < mapping.output.length := by
  obtain ⟨input, output⟩ := filled.length_pos
  unfold OneToOne at differs
  omega

variable {reversal : Bool} {substitution : Substitution} {mapping : Mapping}

/-- The kind that the parser finds fits every filled mapping, but for the kind from the end. -/
theorem Substitution.WellFormed.fits
    (formed : substitution.WellFormed reversal)
    (listed : mapping ∈ substitution.mappings)
    (filled : mapping.Filled) :
    substitution.kind.Fits mapping.input.length mapping.output.length ∨ reversal = true := by
  obtain ⟨input, output⟩ := filled.length_pos
  have joins (none : ¬ substitution.JoinsItems) : mapping.input.length = 1 := by
    have short : ¬ 1 < mapping.input.length := fun long => none ⟨mapping, listed, long⟩
    omega
  have splits (none : ¬ substitution.SplitsItems) : mapping.output.length = 1 := by
    have short : ¬ 1 < mapping.output.length := fun long => none ⟨mapping, listed, long⟩
    omega
  rw [formed.kind]
  by_cases reverses : reversal = true
  · exact .inr reverses
  · rw [if_neg reverses]
    by_cases joining : substitution.JoinsItems
    · rw [if_pos joining]
      exact .inl (splits fun splitting => formed.oneSided ⟨joining, splitting⟩)
    · rw [if_neg joining]
      split
      · exact .inl (joins joining)
      · rename_i splitting
        exact .inl ⟨joins joining, splits splitting⟩

/-- All substitutions of lookups from the end are of one kind. -/
theorem Substitution.WellFormed.kind_of_reversal
    (formed : substitution.WellFormed reversal)
    (reverses : reversal = true) :
    substitution.kind = .reverse := by
  rw [formed.kind, if_pos reverses]

end Source

open Feature (Glyphs Rule)
open Source (CoverageItem LookupDefinition Mapping Statement Substitution SubstitutionKind)

/-- A rule can be made from sides that fit its kind. -/
theorem isSome_substitutionRule_iff
    (kind : SubstitutionKind)
    (context : Feature.Context)
    {input output : List Glyphs} :
    (substitutionRule kind context input output).isSome ↔ kind.Fits input.length output.length := by
  rcases input with _ | ⟨first, _ | ⟨second, rest⟩⟩ <;>
    rcases output with _ | ⟨one, _ | ⟨two, others⟩⟩ <;>
      cases kind <;> simp [substitutionRule, SubstitutionKind.Fits]

namespace Definitions

variable {definitions : Definitions} {lookup : LookupDefinition} {location : Source.Location}

/-- There is one reference for each item of a coverage. -/
theorem length_resolve
    {items : List CoverageItem}
    {references : List Glyphs}
    (resolved : definitions.resolve location items = .ok references) :
    references.length = items.length :=
  (forall₂_of_resolve resolved).length_eq.symm

/-! ## Mappings -/

/-- A filled mapping does not fit the kind of its substitution, and the error says so. -/
structure Misfit (kind : SubstitutionKind) (mapping : Mapping) (error : ConversionError) :
    Prop where
  filled : mapping.Filled
  misfit : ¬ kind.Fits mapping.input.length mapping.output.length
  error_eq : error =
    .substitutionArity kind mapping.input.length mapping.output.length mapping.location

variable {kind : SubstitutionKind} {context : RuleContext} {mapping : Mapping}

/-- Unless its context rules it out, a mapping that does not fit cannot become a rule. -/
theorem failsOnly_mappingRule :
    FailsOnly
      (fun error => error.isReference = true
        ∨ context.ignored = false ∧ Misfit kind mapping error)
      (definitions.mappingRule kind context mapping).result := by
  unfold mappingRule
  split
  · simp
  · rename_i filled
    simp only [Outcome.failsOnly_result_bind_iff, Outcome.liftM_eq_ofExcept,
      Outcome.failsOnly_result_ofExcept_iff, FailsByReference.or, failsByReference_resolve,
      true_and]
    intro input inputResolved
    split
    · simp
    · rename_i applied
      simp only [Outcome.failsOnly_result_bind_iff, Outcome.failsOnly_result_ofExcept_iff,
        FailsByReference.or, failsByReference_resolve, true_and]
      intro output outputResolved
      split
      · simp
      · rename_i shapeless
        rw [Outcome.failsOnly_result_fail_iff]
        have inputs := length_resolve inputResolved
        have outputs := length_resolve outputResolved
        refine .inr ⟨Bool.eq_false_iff.mpr applied, ?_, ?_, ?_⟩
        · simpa [Mapping.Filled] using filled
        · rw [← inputs, ← outputs, ← isSome_substitutionRule_iff kind context.context, shapeless]
          exact Bool.false_ne_true
        · rw [inputs, outputs]

/-- Unless its context rules it out, a filled mapping that becomes a rule fits. -/
theorem fits_of_mappingRule
    {rule : Option Rule}
    (mapped : (definitions.mappingRule kind context mapping).result = .ok rule)
    (filled : mapping.Filled)
    (applied : context.ignored = false) :
    kind.Fits mapping.input.length mapping.output.length := by
  have whole : definitions.mappingRule kind context mapping = ⟨_, .ok rule⟩ :=
    congrArg (Outcome.mk _) mapped
  cases mapsTo_of_mappingRule whole with
  | blank empty => exact (empty filled).elim
  | ignored _ ruledOut => simp [ruledOut] at applied
  | written _ _ inputResolved outputResolved shaped =>
      rw [← length_resolve inputResolved, ← length_resolve outputResolved,
        ← isSome_substitutionRule_iff kind context.context, shaped]
      rfl

theorem failsOnly_substitutionRules {substitution : Substitution} :
    FailsOnly
      (fun error => error.isReference = true
        ∨ context.ignored = false
          ∧ ∃ mapping ∈ substitution.mappings, Misfit substitution.kind mapping error)
      (definitions.substitutionRules substitution context).result := by
  unfold substitutionRules
  rw [Outcome.failsOnly_result_bind_iff]
  refine ⟨Outcome.failsOnly_result_mapM fun mapping listed => ?_, fun rules _ => failsOnly_ok _⟩
  refine failsOnly_mappingRule.mono fun error cause => cause.imp_right ?_
  rintro ⟨applied, misfit⟩
  exact ⟨applied, mapping, listed, misfit⟩

/-- Where a substitution applies and its rules can be written, its filled mappings fit. -/
theorem fits_of_substitutionRules
    {substitution : Substitution}
    {rules : List Rule}
    (written : (definitions.substitutionRules substitution context).result = .ok rules)
    (applied : context.ignored = false)
    (listed : mapping ∈ substitution.mappings)
    (filled : mapping.Filled) :
    substitution.kind.Fits mapping.input.length mapping.output.length := by
  rw [substitutionRules, Outcome.result_bind, Outcome.result_mapM] at written
  obtain ⟨found, traversed, _⟩ := except_bind_eq_ok_iff.mp written
  obtain ⟨rule, _, mapped⟩ := exists_of_mem_left (except_mapM_eq_ok_iff.mp traversed) listed
  exact fits_of_mappingRule mapped filled applied

end Definitions

namespace Compilation

open Definitions (Misfit)

/-! ## Lookups -/

/-- Why a lookup cannot be compiled. -/
inductive Fault (lookup : LookupDefinition) : ConversionError → Prop
  | reference {error : ConversionError} (missing : error.isReference = true) : Fault lookup error
  | construct {error : ConversionError} (unsupported : error.isUnsupported = true) :
      Fault lookup error
  /-- In some context, a mapping does not fit the kind of its substitution. -/
  | mapping
      {substitution : Substitution} {mapping : Mapping} {error : ConversionError}
      (payload : lookup.payload = .substitution substitution)
      (applies : lookup.AppliesSomewhere)
      (listed : mapping ∈ substitution.mappings)
      (misfit : Misfit substitution.kind mapping error) :
      Fault lookup error

variable {definitions : Definitions} {options : Options} {lookup : LookupDefinition}
  {positioning : Source.Positioning} {state : Compilation} {draft parent : CompiledLookup}

/-- Nothing ends the step but a reference or a construct. -/
abbrev FailsInPositioning {α : Type} (outcome : Outcome α) : Prop :=
  FailsOnly (fun error => error.isReference = true ∨ error.isUnsupported = true) outcome.result

@[simp] theorem failsOnly_register {sort : ConversionError → Prop} :
    FailsOnly sort (state.register draft).result := by
  simp [register]

@[simp] theorem failsInPositioning_skipConstruct
    {construct : Construct}
    {location : Source.Location} :
    FailsInPositioning (state.skipConstruct options construct location) := by
  unfold skipConstruct
  split
  · simp [ConversionError.isUnsupported]
  · split <;> simp

@[simp] theorem failsInPositioning_helperFor {progress : Progress} {location : Source.Location} :
    FailsInPositioning (helperFor progress definitions location positioning parent) := by
  unfold helperFor
  split
  · simp
  · simp [addHelper]

theorem failsInPositioning_writeContext {progress : Progress} {context : RuleContext} :
    FailsInPositioning
      (writeContext definitions options lookup positioning parent progress context) := by
  unfold writeContext
  split
  · simp
  · split
    · simp
    · split <;> simp

theorem failsInPositioning_addContextual {contexts : List RuleContext} :
    FailsInPositioning
      (state.addContextual definitions options lookup positioning contexts draft) := by
  simp [addContextual, failsInPositioning_writeContext]

theorem failsOnly_addPieces
    {sort : ConversionError → Prop}
    {index : Nat}
    {pieces : List (List Rule)} :
    FailsOnly sort (addPieces draft state index pieces).result := by
  induction pieces generalizing state index with
  | nil => exact failsOnly_ok state
  | cons rules rest ih =>
      exact Outcome.failsOnly_result_bind_iff.mpr ⟨failsOnly_register, fun _ _ => ih⟩

theorem failsInPositioning_addPairs
    {location : Source.Location}
    {firsts seconds : List Source.Coverage}
    {pairs : List Source.PairAdjustment} :
    FailsInPositioning
      (state.addPairs definitions options location firsts seconds pairs draft) := by
  unfold addPairs
  refine Outcome.failsOnly_result_bind_iff.mpr ⟨by simp, fun rules _ => ?_⟩
  dsimp only
  split
  · simp
  · split
    · simp
    · refine Outcome.failsOnly_result_bind_iff.mpr ⟨by simp, fun pieces _ => ?_⟩
      split <;> simp [failsOnly_addPieces]

theorem failsInPositioning_addPositioning {contexts : List RuleContext} :
    FailsInPositioning
      (state.addPositioning definitions options lookup positioning contexts draft) := by
  cases positioning with
  | pairs firsts seconds pairs =>
      have overlaps (side : Side) (coverages : List Source.Coverage) :
          FailsInPositioning
            (definitions.reportOverlaps lookup.location lookup.name side coverages) := by
        simp [Definitions.reportOverlaps]
      simp only [addPositioning, Outcome.failsOnly_result_bind_iff, overlaps, true_and]
      intro _ _ _ _
      split
      · exact failsInPositioning_addPairs
      · exact failsInPositioning_addContextual
  | _ => exact failsInPositioning_addContextual

/-- A lookup that cannot be compiled is at fault itself. -/
theorem failsOnly_addLookup :
    FailsOnly (Fault lookup) (addLookup definitions options state lookup).result := by
  unfold addLookup
  simp only [Outcome.failsOnly_result_bind_iff, Outcome.liftM_eq_ofExcept,
    Outcome.failsOnly_result_ofExcept_iff]
  refine ⟨Definitions.failsByReference_lookupFlags.mono fun _ => .reference, fun flags _ => ?_⟩
  refine ⟨Definitions.failsByReference_ruleContexts.mono fun _ => .reference,
    fun contexts surrounded => ?_⟩
  split
  · rename_i substitution payload
    unfold addSubstitution
    rw [Outcome.failsOnly_result_bind_iff]
    refine ⟨Outcome.failsOnly_result_mapM fun context listed => ?_, fun _ _ => failsOnly_register⟩
    refine Definitions.failsOnly_substitutionRules.mono ?_
    rintro error (missing | ⟨applied, mapping, inside, misfit⟩)
    · exact .reference missing
    · exact .mapping payload
        ((Definitions.appliesSomewhere_iff surrounded).mpr ⟨context, listed, applied⟩) inside misfit
  · exact failsInPositioning_addPositioning.mono fun _ cause => cause.elim .reference .construct

/-- If the lookups of a project cannot be compiled, one of them is at fault. -/
theorem failsOnly_ofStatements {statements : List Statement} :
    FailsOnly (fun error => ∃ lookup ∈ lookupsOf statements, Fault lookup error)
      (ofStatements definitions options statements).result := by
  unfold ofStatements
  rw [Outcome.failsOnly_result_bind_iff]
  refine ⟨Outcome.failsOnly_result_foldlM fun state statement listed => ?_, fun _ _ => by simp⟩
  cases statement with
  | lookup lookup =>
      have present : lookup ∈ lookupsOf statements :=
        List.mem_filterMap.mpr ⟨.lookup lookup, listed, rfl⟩
      exact failsOnly_addLookup.mono fun error fault => ⟨lookup, present, fault⟩
  | _ => exact failsOnly_ok state

/-- In a lookup that has been compiled and applies somewhere, the filled mappings fit. -/
theorem Translates.fits
    {drafts : List CompiledLookup}
    (translated : Translates definitions options lookup drafts)
    (applies : lookup.AppliesSomewhere)
    {substitution : Substitution}
    (payload : lookup.payload = .substitution substitution)
    {mapping : Mapping}
    (listed : mapping ∈ substitution.mappings)
    (filled : mapping.Filled) :
    substitution.kind.Fits mapping.input.length mapping.output.length := by
  cases translated with
  | @substitution flags contexts own log rules flagged surrounded given written =>
      obtain rfl : own = substitution := by
        rw [payload] at given
        exact (Source.Payload.substitution.inj given).symm
      obtain ⟨context, present, applied⟩ :=
        (Definitions.appliesSomewhere_iff surrounded).mp applies
      have traversed : contexts.mapM
          (fun context => (definitions.substitutionRules own context).result) = .ok rules := by
        rw [← Outcome.result_mapM, written]
      obtain ⟨some, _, each⟩ := exists_of_mem_left (except_mapM_eq_ok_iff.mp traversed) present
      exact Definitions.fits_of_substitutionRules each applied listed filled
  | positioning flagged surrounded given =>
      rw [payload] at given
      cases given

/-! ## Sources -/

/-- The substitutions of a source that has been read are well-formed. -/
theorem wellFormed_of_mem_lookupsOf
    {text : String}
    {statements : List Statement}
    (parsed : Source.parse text = .ok statements)
    (present : lookup ∈ lookupsOf statements)
    {substitution : Substitution}
    (payload : lookup.payload = .substitution substitution) :
    substitution.WellFormed lookup.reversal := by
  obtain ⟨statement, listed, found⟩ := List.mem_filterMap.mp present
  cases statement with
  | lookup definition =>
      obtain rfl := Option.some.inj found
      have proper := ((Source.wellFormed_of_parse parsed).each _ listed).proper.payload
      rwa [payload] at proper
  | _ => cases found

/--
Of the lookups in a source that has been read, only those from the end can fail for the number of
items in a mapping, whatever the definitions.  The mapping is filled, has several items on a side,
and its lookup applies in some context.  If the lookups are compiled, each filled mapping of such a
lookup is from one item to one.
-/
theorem substitutionArity_of_parse
    {text : String}
    {statements : List Statement}
    (parsed : Source.parse text = .ok statements)
    (definitions : Definitions)
    (options : Options) :
    (∀ kind input output location,
      (ofStatements definitions options statements).result =
          .error (.substitutionArity kind input output location) →
        ∃ lookup ∈ lookupsOf statements, lookup.reversal = true ∧ lookup.AppliesSomewhere
          ∧ ∃ mapping ∈ lookup.mappings, mapping.Filled
            ∧ (1 < mapping.input.length ∨ 1 < mapping.output.length)
            ∧ kind = .reverse ∧ input = mapping.input.length ∧ output = mapping.output.length
            ∧ location = mapping.location)
      ∧ ∀ state, (ofStatements definitions options statements).result = .ok state →
          ∀ lookup ∈ lookupsOf statements, lookup.reversal = true → lookup.AppliesSomewhere →
            ∀ mapping ∈ lookup.mappings, mapping.Filled → mapping.OneToOne := by
  constructor
  · intro kind input output location failed
    obtain ⟨lookup, present, fault⟩ := failsOnly_ofStatements _ failed
    cases fault with
    | reference missing => cases missing
    | construct unsupported => cases unsupported
    | @mapping substitution mapping _ payload applies listed misfit =>
        obtain ⟨filled, differs, same⟩ := misfit
        cases same
        have formed := wellFormed_of_mem_lookupsOf parsed present payload
        have reverses := (formed.fits listed filled).resolve_left differs
        have reverse := formed.kind_of_reversal reverses
        rw [reverse] at differs
        exact ⟨lookup, present, reverses, applies, mapping,
          LookupDefinition.mem_mappings_iff.mpr ⟨substitution, payload, listed⟩, filled,
          filled.several_of_not_oneToOne differs, reverse, rfl, rfl, rfl⟩
  · intro state compiled lookup present reverses applies mapping member filled
    obtain ⟨substitution, payload, listed⟩ := LookupDefinition.mem_mappings_iff.mp member
    have whole : ofStatements definitions options statements =
        ⟨(ofStatements definitions options statements).log, .ok state⟩ := by
      rw [← compiled]
    obtain ⟨translations, related, _⟩ := entered_of_ofStatements whole
    obtain ⟨drafts, _, translated⟩ := exists_of_mem_left related present
    have fits := translated.fits applies payload listed filled
    rw [(wellFormed_of_mem_lookupsOf parsed present payload).kind_of_reversal reverses] at fits
    exact fits

/-- A text with one lookup from the end, which has one mapping. -/
def reversing (input output : String) : String :=
  "DEF_LOOKUP \"back\" REVERSAL AS_SUBSTITUTION SUB " ++ input ++ " WITH " ++ output
    ++ " END_SUB END_SUBSTITUTION END"

/-- From the end, two items cannot become one, and one item can. -/
theorem substitutionArity_of_parse_reversing :
    (∃ statements location,
      Source.parse (reversing "GLYPH a GLYPH b" "GLYPH c") = .ok statements
        ∧ (ofStatements { glyphOrder := none } {} statements).result =
            .error (.substitutionArity .reverse 2 1 location)
        ∧ ∃ lookup ∈ lookupsOf statements, lookup.reversal = true
          ∧ ∃ mapping ∈ lookup.mappings, mapping.Filled ∧ 2 = mapping.input.length)
      ∧ ∃ statements state,
          Source.parse (reversing "GLYPH a" "GLYPH c") = .ok statements
            ∧ (ofStatements { glyphOrder := none } {} statements).result = .ok state
            ∧ ∃ lookup ∈ lookupsOf statements, lookup.reversal = true ∧ lookup.AppliesSomewhere
              ∧ ∃ mapping ∈ lookup.mappings, mapping.Filled ∧ mapping.OneToOne := by
  constructor
  · have run : ∃ statements ∈ (Source.parse (reversing "GLYPH a GLYPH b" "GLYPH c")).toOption,
        error? (ofStatements { glyphOrder := none } {} statements).result =
          some (.substitutionArity .reverse 2 1 ⟨1, 44⟩) := by
      decide +kernel
    obtain ⟨statements, read, failed⟩ := run
    have parsed := except_eq_ok_of_toOption read
    have failed := eq_error_of_error? failed
    obtain ⟨lookup, present, reverses, _, mapping, listed, filled, _, _, input, _⟩ :=
      (substitutionArity_of_parse parsed _ _).1 _ _ _ _ failed
    exact ⟨statements, _, parsed, failed, lookup, present, reverses, mapping, listed, filled, input⟩
  · have run : ∃ statements ∈ (Source.parse (reversing "GLYPH a" "GLYPH c")).toOption,
        ∃ state ∈ (ofStatements { glyphOrder := none } {} statements).result.toOption,
          ∃ lookup ∈ lookupsOf statements, lookup.reversal = true ∧ lookup.AppliesSomewhere
            ∧ ∃ mapping ∈ lookup.mappings, mapping.Filled := by
      decide +kernel
    obtain ⟨statements, read, state, compiled, lookup, present, reverses, applies, mapping,
      listed, filled⟩ := run
    have parsed := except_eq_ok_of_toOption read
    have compiled := except_eq_ok_of_toOption compiled
    exact ⟨statements, state, parsed, compiled, lookup, present, reverses, applies, mapping,
      listed, filled, (substitutionArity_of_parse parsed _ _).2 state compiled lookup present
        reverses applies mapping listed filled⟩

end Compilation
end GlyphLayout
