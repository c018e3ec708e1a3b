import GlyphLayout.Proofs.Entering

/-!
# Writing contexts

The rules of a contextual positioning lookup are written context by context.  On the way the
helper is entered at most once, when some context first needs it, and the rules refer to
nothing else.
-/

namespace GlyphLayout

open Feature (Rule)
open Source (Coverage Location LookupDefinition PairAdjustment Positioning Statement)

namespace Compilation

variable {definitions : Definitions} {options : Options} {lookup : LookupDefinition}
  {positioning : Positioning} {contexts : List RuleContext}

/-- A stretch of a run over the contexts of a lookup that has written the given rules. -/
structure Writes (start : Compilation) (parent : CompiledLookup) (plain : PlainRules)
    (needed : Bool) (rules : List Rule) (log : List Notice) (progress : Progress) : Prop where
  /-- The helper is entered if it has been needed. -/
  entered :
    Entered start (if needed then [helperDraft parent plain.rules] else []) log progress.state
  helper_eq : progress.helper =
    if needed then some (progress.state.labels.identifierOf (helperName parent.sourceName))
    else none
  helperKnown : needed → progress.state.labels.Knows (helperName parent.sourceName)
  rules_eq : progress.rules = rules.map (Rule.relabel progress.state.labels.identifierOf)
  /-- Only a helper that is there is referred to. -/
  known : ∀ rule ∈ rules, ∀ name ∈ rule.references,
    progress.state.labels.Knows name

/-- Rules that have been written stay as they are when the pool grows. -/
theorem map_relabel_rules_of_grows
    {pool next : IdentifierPool}
    {rules : List Rule}
    (grows : pool.Grows next)
    (known : ∀ rule ∈ rules, ∀ name ∈ rule.references, pool.Knows name) :
    rules.map (Rule.relabel next.identifierOf) = rules.map (Rule.relabel pool.identifierOf) :=
  List.map_congr_left fun rule member => Rule.relabel_congr fun name inside =>
    IdentifierPool.identifierOf_of_grows grows (known rule member name inside)

/-- More rules in a state that has entered nothing more. -/
theorem Writes.extend
    {start state : Compilation}
    {parent : CompiledLookup}
    {plain : PlainRules}
    {needed : Bool}
    {rules : List Rule}
    {log later : List Notice}
    {progress : Progress}
    (writes : Writes start parent plain needed rules log progress)
    (entered : Entered progress.state [] later state)
    (more : List Rule)
    (known : ∀ rule ∈ more, ∀ name ∈ rule.references, state.labels.Knows name) :
    Writes start parent plain needed (rules ++ more) (log ++ later)
      { state
        rules := progress.rules ++ more.map (Rule.relabel state.labels.identifierOf)
        helper := progress.helper } where
  entered := by simpa using writes.entered.trans entered
  helper_eq := by
    rw [writes.helper_eq]
    split
    · rename_i present
      rw [IdentifierPool.identifierOf_of_grows entered.grows (writes.helperKnown present)]
    · rfl
  helperKnown present := (writes.helperKnown present).mono entered.grows
  rules_eq := by
    rw [List.map_append, map_relabel_rules_of_grows entered.grows writes.known,
      ← writes.rules_eq]
  known rule member name inside := by
    rcases List.mem_append.mp member with before | after
    · exact (writes.known rule before name inside).mono entered.grows
    · exact known rule after name inside

/-- The helper is there after it has been asked for. -/
theorem Writes.helperFor
    {start : Compilation}
    {parent : CompiledLookup}
    {plain : PlainRules}
    {needed : Bool}
    {rules : List Rule}
    {log : List Notice}
    {progress : Progress}
    (writes : Writes start parent plain needed rules log progress)
    (resolved : definitions.plainRules lookup.location positioning = .ok plain) :
    ∃ later state,
      Compilation.helperFor progress definitions lookup.location positioning parent =
          ⟨later, .ok (state, state.labels.identifierOf (helperName parent.sourceName))⟩
        ∧ Writes start parent plain true rules (log ++ later)
            { progress with
              state
              helper := some (state.labels.identifierOf (helperName parent.sourceName)) } := by
  unfold Compilation.helperFor
  cases needed with
  | true =>
      refine ⟨[], progress.state, ?_, ?_⟩
      · simp only [writes.helper_eq, if_true]
        rfl
      · have same := writes.helper_eq
        rw [if_pos rfl] at same
        rw [← same, List.append_nil]
        exact writes
  | false =>
      obtain ⟨later, state, added, entered, knows⟩ :=
        entered_addHelper resolved progress.state parent
      refine ⟨later, state, ?_, ?_⟩
      · simp only [writes.helper_eq, Bool.false_eq_true, if_false]
        exact added
      · have all := writes.entered.trans entered
        refine ⟨by simpa using all, rfl, fun _ => knows, ?_, ?_⟩
        · rw [map_relabel_rules_of_grows entered.grows writes.known, ← writes.rules_eq]
        · exact fun rule member name inside =>
            (writes.known rule member name inside).mono entered.grows

/-- One more context. -/
theorem Writes.writeContext
    {start : Compilation}
    {parent : CompiledLookup}
    {plain : PlainRules}
    {needed : Bool}
    {rules more : List Rule}
    {log : List Notice}
    {progress : Progress}
    {context : RuleContext}
    (writes : Writes start parent plain needed rules log progress)
    (expressible : options.strict → context.isContextual → obstacle? lookup positioning = none)
    (helped : appliesHelper lookup positioning context →
      definitions.plainRules lookup.location positioning = .ok plain)
    (written : contextRules definitions lookup positioning (helperName parent.sourceName)
      context = .ok more) :
    ∃ later next,
      Compilation.writeContext definitions options lookup positioning parent progress context =
          ⟨later, .ok next⟩
        ∧ Writes start parent plain (needed || appliesHelper lookup positioning context)
            (rules ++ more) (log ++ later) next := by
  cases contextual : context.isContextual with
  | false =>
      simp only [contextRules, contextual, Bool.not_false, if_true] at written
      obtain ⟨every, resolved, result⟩ := except_bind_eq_ok_iff.mp written
      cases result
      have isPlain := Definitions.isPlain_of_plainRules resolved
      have extended := writes.extend (entered_useMarks progress.state every.marks)
        every.rules (fun rule member name inside => by
          rw [(isPlain rule member).2] at inside
          cases inside)
      rw [Rule.map_relabel_of_isPlain isPlain] at extended
      refine ⟨[], _, (ContextStep.plain contextual resolved).writeContext, ?_⟩
      simpa [appliesHelper, contextual] using extended
  | true =>
      cases obstacle : obstacle? lookup positioning with
      | some construct =>
          rw [contextRules_of_obstacle contextual obstacle] at written
          cases written
          have permissive : options.strict = false := by
            cases strict : options.strict with
            | false => rfl
            | true => simp [expressible strict contextual] at obstacle
          obtain ⟨later, state, skipped, entered⟩ :=
            entered_skipConstruct progress.state construct lookup.location permissive
          have extended := writes.extend entered [] (by simp)
          refine ⟨later, _, (ContextStep.skipped contextual obstacle skipped).writeContext, ?_⟩
          simpa [appliesHelper, obstacle] using extended
      | none =>
          simp only [contextRules, contextual, obstacle, Bool.not_true, Bool.false_eq_true,
            if_false, Option.isSome_none] at written
          obtain ⟨inputs, resolved, result⟩ := except_bind_eq_ok_iff.mp written
          cases result
          cases ignored : context.ignored with
          | true =>
              have extended := writes.extend
                (entered_nil progress.state progress.state (.refl _) id rfl [])
                (inputs.map fun input => .ignorePos context.context input)
                (by simp [Rule.references])
              refine ⟨[], _,
                (ContextStep.ignored contextual obstacle ignored resolved).writeContext, ?_⟩
              simpa [appliesHelper, ignored, Function.comp_def, Rule.relabel] using extended
          | false =>
              have applies : appliesHelper lookup positioning context := by
                simp [appliesHelper, contextual, obstacle, ignored]
              obtain ⟨later, state, found, helper⟩ := writes.helperFor (helped applies)
              have extended := helper.extend
                (entered_nil state state (.refl _) id rfl [])
                (inputs.map fun input => .chainPos context.context
                  (input.map fun item => (item, some (Compilation.helperName parent.sourceName))))
                (fun rule member name inside => by
                  obtain ⟨input, _, rfl⟩ := List.mem_map.mp member
                  simp only [Rule.references, List.filterMap_map, List.mem_filterMap] at inside
                  obtain ⟨item, _, same⟩ := inside
                  cases same
                  exact helper.helperKnown rfl)
              refine ⟨later, _,
                (ContextStep.chained contextual obstacle ignored found resolved).writeContext, ?_⟩
              simpa [applies, Function.comp_def, Rule.relabel] using extended

/-- All contexts, one after the other. -/
theorem Writes.writeContexts
    {start : Compilation}
    {parent : CompiledLookup}
    {plain : PlainRules}
    {needed : Bool}
    {rules : List Rule}
    {more : List (List Rule)}
    {log : List Notice}
    {progress : Progress}
    (writes : Writes start parent plain needed rules log progress)
    (expressible : options.strict → ∀ context ∈ contexts, context.isContextual →
      obstacle? lookup positioning = none)
    (helped : contexts.any (appliesHelper lookup positioning) →
      definitions.plainRules lookup.location positioning = .ok plain)
    (written : contexts.mapM (contextRules definitions lookup positioning
      (helperName parent.sourceName)) = .ok more) :
    ∃ later last,
      contexts.foldlM (Compilation.writeContext definitions options lookup positioning parent)
          progress = ⟨later, .ok last⟩
        ∧ Writes start parent plain
            (needed || contexts.any (appliesHelper lookup positioning))
            (rules ++ more.flatten) (log ++ later) last := by
  induction contexts generalizing needed rules more log progress with
  | nil =>
      cases written
      exact ⟨[], progress, rfl, by simpa using writes⟩
  | cons context contexts ih =>
      rw [List.mapM_cons] at written
      obtain ⟨here, first, written⟩ := except_bind_eq_ok_iff.mp written
      obtain ⟨rest, tail, result⟩ := except_bind_eq_ok_iff.mp written
      cases result
      obtain ⟨before, middle, step, stepWrites⟩ := writes.writeContext
        (fun strict => expressible strict context (List.mem_cons_self ..))
        (fun applies => helped (by simp [applies])) first
      obtain ⟨after, last, steps, lastWrites⟩ := ih stepWrites
        (fun strict other member => expressible strict other (List.mem_cons_of_mem _ member))
        (fun applies => helped (by simp [applies])) tail
      refine ⟨before ++ after, last, ?_, ?_⟩
      · rw [List.foldlM_cons]
        exact Outcome.bind_eq_ok_iff.mpr ⟨before, middle, after, step, steps, rfl⟩
      · simpa [Bool.or_assoc] using lastWrites

end Compilation
end GlyphLayout
