import GlyphLayout.Proofs.Identifier
import GlyphLayout.Proofs.RuleForms
import GlyphLayout.Proofs.Table

/-!
# Compiling is translating

Compiling the lookups of a project comes to a result exactly when every definition has a
translation, whatever has been compiled before.  The lookups of the translations are then
entered into the table one after the other, under the identifiers that the final pool gives to
the names that they mention.
-/

namespace GlyphLayout

open Feature (Rule)
open Source (Coverage Location LookupDefinition PairAdjustment Positioning Statement)

namespace Compilation

variable {definitions : Definitions} {options : Options} {lookup : LookupDefinition}
  {positioning : Positioning} {contexts : List RuleContext}

/-! ## From a run to a translation -/

theorem overlaps_of_reportOverlaps
    {location : Location}
    {name : String}
    {side : Side}
    {coverages : List Coverage}
    {log : List Notice}
    (reported : definitions.reportOverlaps location name side coverages = ⟨log, .ok ()⟩) :
    ∃ sets, coverages.mapM (definitions.expand location) = .ok sets := by
  obtain ⟨_, sets, _, expanded, _, _⟩ := Outcome.bind_eq_ok_iff.mp reported
  exact ⟨sets, (Outcome.ofExcept_eq_ok_iff.mp expanded).2⟩

/-- A helper that comes into being has plain rules. -/
theorem plainRules_of_helperFor
    {parent : CompiledLookup}
    {progress : Progress}
    {log : List Notice}
    {result : Compilation × String}
    (none : progress.helper = none)
    (helped : helperFor progress definitions lookup.location positioning parent =
      ⟨log, .ok result⟩) :
    ∃ plain, definitions.plainRules lookup.location positioning = .ok plain := by
  unfold helperFor at helped
  rw [none] at helped
  obtain ⟨_, _, _, _, helped, _⟩ := Outcome.bind_eq_ok_iff.mp helped
  obtain ⟨plain, resolved, _⟩ := Outcome.liftM_bind_eq_ok_iff.mp helped
  exact ⟨plain, resolved⟩

/-- The ways in which the rules of a lookup are written for one context. -/
inductive ContextStep (definitions : Definitions) (options : Options) (lookup : LookupDefinition)
    (positioning : Positioning) (parent : CompiledLookup) (progress : Progress)
    (context : RuleContext) : List Notice → Progress → Prop
  /-- A context that asks for nothing has the plain rules. -/
  | plain
      {plain : PlainRules}
      (everywhere : context.isContextual = false)
      (resolved : definitions.plainRules lookup.location positioning = .ok plain) :
      ContextStep definitions options lookup positioning parent progress context []
        { progress with
          state := progress.state.useMarks plain.marks
          rules := progress.rules ++ plain.rules }
  /-- Nothing is written where a feature file cannot say it. -/
  | skipped
      {construct : Construct} {state : Compilation} {log : List Notice}
      (contextual : context.isContextual = true)
      (obstacle : obstacle? lookup positioning = some construct)
      (skipped : progress.state.skipConstruct options construct lookup.location =
        ⟨log, .ok state⟩) :
      ContextStep definitions options lookup positioning parent progress context log
        { progress with state }
  | ignored
      {inputs : List (List Feature.Glyphs)}
      (contextual : context.isContextual = true)
      (free : obstacle? lookup positioning = none)
      (except : context.ignored = true)
      (resolved : definitions.inputSequences lookup.location positioning = .ok inputs) :
      ContextStep definitions options lookup positioning parent progress context []
        { progress with
          rules := progress.rules ++ inputs.map fun input => .ignorePos context.context input }
  /-- Elsewhere the helper is applied, which is there by then. -/
  | chained
      {inputs : List (List Feature.Glyphs)} {state : Compilation} {label : String}
      {log : List Notice}
      (contextual : context.isContextual = true)
      (free : obstacle? lookup positioning = none)
      (within : context.ignored = false)
      (helped : helperFor progress definitions lookup.location positioning parent =
        ⟨log, .ok (state, label)⟩)
      (resolved : definitions.inputSequences lookup.location positioning = .ok inputs) :
      ContextStep definitions options lookup positioning parent progress context log
        { state
          rules := progress.rules ++ inputs.map fun input =>
            .chainPos context.context (input.map fun item => (item, some label))
          helper := some label }

/-- Writing the rules for a context is one of these steps. -/
theorem contextStep_of_writeContext
    {parent : CompiledLookup}
    {progress next : Progress}
    {context : RuleContext}
    {log : List Notice}
    (written : writeContext definitions options lookup positioning parent progress context =
      ⟨log, .ok next⟩) :
    ContextStep definitions options lookup positioning parent progress context log next := by
  unfold writeContext at written
  cases contextual : context.isContextual with
  | false =>
      simp only [contextual, Bool.not_false, if_true] at written
      obtain ⟨plain, resolved, result⟩ := Outcome.liftM_bind_eq_ok_iff.mp written
      cases result
      exact .plain contextual resolved
  | true =>
      simp only [contextual, Bool.not_true, Bool.false_eq_true, if_false] at written
      cases obstacle : obstacle? lookup positioning with
      | some construct =>
          simp only [obstacle] at written
          obtain ⟨_, state, _, skipped, result, rfl⟩ := Outcome.bind_eq_ok_iff.mp written
          cases result
          rw [List.append_nil]
          exact .skipped contextual obstacle skipped
      | none =>
          simp only [obstacle] at written
          cases ignored : context.ignored with
          | true =>
              simp only [ignored, if_true] at written
              obtain ⟨inputs, resolved, result⟩ := Outcome.liftM_bind_eq_ok_iff.mp written
              cases result
              exact .ignored contextual obstacle ignored resolved
          | false =>
              simp only [ignored, Bool.false_eq_true, if_false] at written
              obtain ⟨_, ⟨state, label⟩, _, helped, rest, rfl⟩ :=
                Outcome.bind_eq_ok_iff.mp written
              obtain ⟨inputs, resolved, result⟩ := Outcome.liftM_bind_eq_ok_iff.mp rest
              cases result
              rw [List.append_nil]
              exact .chained contextual obstacle ignored helped resolved

/-- Each of these steps can be taken. -/
theorem ContextStep.writeContext
    {parent : CompiledLookup}
    {progress next : Progress}
    {context : RuleContext}
    {log : List Notice}
    (step :
      ContextStep definitions options lookup positioning parent progress context log next) :
    writeContext definitions options lookup positioning parent progress context =
      ⟨log, .ok next⟩ := by
  unfold Compilation.writeContext
  cases step with
  | plain everywhere resolved =>
      simp only [everywhere, Bool.not_false, if_true]
      exact Outcome.liftM_bind_eq_ok_iff.mpr ⟨_, resolved, rfl⟩
  | skipped contextual obstacle skipped =>
      simp only [contextual, obstacle, Bool.not_true, Bool.false_eq_true, if_false]
      exact Outcome.bind_eq_ok_iff.mpr ⟨log, _, [], skipped, rfl, (List.append_nil log).symm⟩
  | ignored contextual free except resolved =>
      simp only [contextual, free, except, Bool.not_true, Bool.false_eq_true, if_false, if_true]
      exact Outcome.liftM_bind_eq_ok_iff.mpr ⟨_, resolved, rfl⟩
  | chained contextual free within helped resolved =>
      simp only [contextual, free, within, Bool.not_true, Bool.false_eq_true, if_false]
      exact Outcome.bind_eq_ok_iff.mpr ⟨log, _, [], helped,
        Outcome.liftM_bind_eq_ok_iff.mpr ⟨_, resolved, rfl⟩, (List.append_nil log).symm⟩

/-- What a step that writes one context takes for granted. -/
theorem of_writeContext
    {parent : CompiledLookup}
    {progress next : Progress}
    {context : RuleContext}
    {log : List Notice}
    (target : String)
    (written : writeContext definitions options lookup positioning parent progress context =
      ⟨log, .ok next⟩) :
    (∃ rules, contextRules definitions lookup positioning target context = .ok rules)
      ∧ (options.strict → context.isContextual → obstacle? lookup positioning = none)
      ∧ (progress.helper = none → appliesHelper lookup positioning context →
          ∃ plain, definitions.plainRules lookup.location positioning = .ok plain)
      ∧ (progress.helper = none → next.helper.isSome →
          appliesHelper lookup positioning context) := by
  cases contextStep_of_writeContext written with
  | plain everywhere resolved =>
      refine ⟨⟨_, contextRules_of_plain everywhere resolved⟩, ?_, fun _ _ => ⟨_, resolved⟩, ?_⟩
      · simp [everywhere]
      · intro none some
        simp [none] at some
  | skipped contextual obstacle skipped =>
      refine ⟨⟨_, contextRules_of_obstacle contextual obstacle⟩, ?_, ?_, ?_⟩
      · intro strict
        rw [skipConstruct, if_pos strict] at skipped
        exact (Outcome.fail_ne_ok skipped).elim
      · simp [appliesHelper, obstacle]
      · intro none some
        simp [none] at some
  | ignored contextual free except resolved =>
      refine ⟨⟨_, contextRules_of_inputs contextual free resolved⟩, fun _ _ => free, ?_, ?_⟩
      · simp [appliesHelper, except]
      · intro none some
        simp [none] at some
  | chained contextual free within helped resolved =>
      refine ⟨⟨_, contextRules_of_inputs contextual free resolved⟩, fun _ _ => free, ?_, ?_⟩
      · exact fun none _ => plainRules_of_helperFor none helped
      · simp [appliesHelper, contextual, free, within]

/-- What a run over the contexts of a lookup takes for granted. -/
theorem of_writeContexts
    {parent : CompiledLookup}
    {progress last : Progress}
    {log : List Notice}
    (target : String)
    (written : contexts.foldlM (writeContext definitions options lookup positioning parent)
      progress = ⟨log, .ok last⟩) :
    (∃ rules, contexts.mapM (contextRules definitions lookup positioning target) = .ok rules)
      ∧ (options.strict → ∀ context ∈ contexts, context.isContextual →
          obstacle? lookup positioning = none)
      ∧ (progress.helper = none → contexts.any (appliesHelper lookup positioning) →
          ∃ plain, definitions.plainRules lookup.location positioning = .ok plain) := by
  induction contexts generalizing progress log with
  | nil => exact ⟨⟨[], rfl⟩, by simp, by simp⟩
  | cons context contexts ih =>
      rw [List.foldlM_cons] at written
      obtain ⟨_, next, _, step, rest, _⟩ := Outcome.bind_eq_ok_iff.mp written
      obtain ⟨⟨rules, here⟩, expressible, helped, needed⟩ := of_writeContext target step
      obtain ⟨⟨others, later⟩, expressibleLater, helpedLater⟩ := ih rest
      refine ⟨⟨rules :: others, ?_⟩, ?_, ?_⟩
      · rw [List.mapM_cons, here, later]
        rfl
      · intro strict
        exact List.forall_mem_cons.mpr ⟨expressible strict, expressibleLater strict⟩
      · intro none some
        cases added : next.helper with
        | some label => exact helped none (needed none (by simp [added]))
        | none =>
            rcases Bool.or_eq_true_iff.mp some with first | second
            · exact helped none first
            · exact helpedLater added second

/-- What the definition of a positioning lookup is known to be translated to after a run. -/
theorem translates_of_addContextual
    {state next : Compilation}
    {parent draft : CompiledLookup}
    {log : List Notice}
    (noPairs : isPlainPairs contexts positioning = false)
    (added : state.addContextual definitions options lookup positioning contexts parent =
      ⟨log, .ok next⟩) :
    ∃ drafts,
      TranslatesPositioning definitions options lookup positioning contexts draft drafts := by
  obtain ⟨_, last, _, written, _, _⟩ := Outcome.bind_eq_ok_iff.mp added
  obtain ⟨⟨rules, each⟩, expressible, helped⟩ :=
    of_writeContexts (helperName draft.sourceName) written
  cases needed : contexts.any (appliesHelper lookup positioning) with
  | true =>
      obtain ⟨plain, resolved⟩ := helped rfl needed
      exact ⟨_, .contextual noPairs (fun _ => resolved) expressible each⟩
  | false =>
      have idle : contexts.any (appliesHelper lookup positioning) →
          definitions.plainRules lookup.location positioning = .ok ⟨[], []⟩ := by
        simp [needed]
      exact ⟨_, .contextual noPairs idle expressible each⟩

theorem translates_of_addPairs
    {state next : Compilation}
    {firsts seconds : List Coverage}
    {adjustments : List PairAdjustment}
    {real draft : CompiledLookup}
    {log : List Notice}
    (added : state.addPairs definitions options lookup.location firsts seconds adjustments real =
      ⟨log, .ok next⟩)
    (plain : isPlainPairs contexts (.pairs firsts seconds adjustments))
    (sameId : real.id = draft.id) :
    ∃ drafts, TranslatesPositioning definitions options lookup
      (.pairs firsts seconds adjustments) contexts draft drafts := by
  obtain ⟨pairs, resolved, added⟩ := Outcome.liftM_bind_eq_ok_iff.mp added
  cases limited : options.pairLimit with
  | none =>
      refine ⟨_, .whole rfl plain resolved fun limit some => ?_⟩
      simp [limited] at some
  | some limit =>
      simp only [limited] at added
      cases piece : draft.id.isPiece with
      | true =>
          refine ⟨_, .whole rfl plain resolved fun limit _ noPiece => ?_⟩
          simp [piece] at noPiece
      | false =>
          rw [if_neg (by simp [sameId, piece])] at added
          obtain ⟨pieces, divided, _⟩ := Outcome.liftM_bind_eq_ok_iff.mp added
          by_cases several : 2 ≤ pieces.length
          · exact ⟨_, .cut rfl plain resolved limited piece divided several⟩
          · refine ⟨_, .whole rfl plain resolved fun other same _ => ?_⟩
            rw [limited] at same
            cases same
            exact ⟨pieces, divided, by omega⟩

theorem translates_of_addPositioning
    {state next : Compilation}
    {real : CompiledLookup}
    (draft : CompiledLookup)
    {log : List Notice}
    (added : state.addPositioning definitions options lookup positioning contexts real =
      ⟨log, .ok next⟩)
    (sameId : real.id = draft.id) :
    OverlapsKnown definitions lookup positioning ∧ ∃ drafts,
      TranslatesPositioning definitions options lookup positioning contexts draft drafts := by
  cases positioning with
  | pairs firsts seconds adjustments =>
      obtain ⟨_, _, _, first, added, _⟩ := Outcome.bind_eq_ok_iff.mp added
      obtain ⟨_, _, _, second, added, _⟩ := Outcome.bind_eq_ok_iff.mp added
      refine ⟨⟨overlaps_of_reportOverlaps first, overlaps_of_reportOverlaps second⟩, ?_⟩
      split at added
      · rename_i plain
        exact translates_of_addPairs added plain sameId
      · rename_i contextual
        exact translates_of_addContextual (Bool.eq_false_iff.mpr contextual) added
  | singles adjustments => exact ⟨trivial, translates_of_addContextual rfl added⟩
  | attach bases marks => exact ⟨trivial, translates_of_addContextual rfl added⟩
  | cursive exits entries => exact ⟨trivial, translates_of_addContextual rfl added⟩

/-- A definition that has been compiled has a translation. -/
theorem translates_of_addLookup
    {state next : Compilation}
    {log : List Notice}
    (added : addLookup definitions options state lookup = ⟨log, .ok next⟩) :
    ∃ drafts, Translates definitions options lookup drafts := by
  obtain ⟨flags, flagged, added⟩ := Outcome.liftM_bind_eq_ok_iff.mp added
  obtain ⟨contexts, surrounded, added⟩ := Outcome.liftM_bind_eq_ok_iff.mp added
  cases payload : lookup.payload with
  | substitution substitution =>
      simp only [payload] at added
      obtain ⟨_, rules, _, written, _, _⟩ := Outcome.bind_eq_ok_iff.mp added
      exact ⟨_, .substitution flagged surrounded payload written⟩
  | positioning positioning =>
      simp only [payload] at added
      obtain ⟨overlaps, drafts, translated⟩ := translates_of_addPositioning
        { draftOf lookup flags with useExtension := definitions.useExtension } added rfl
      exact ⟨drafts, .positioning flagged surrounded payload overlaps translated⟩

end Compilation
end GlyphLayout
