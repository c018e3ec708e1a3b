import GlyphLayout.Proofs.Compiling
import GlyphLayout.Proofs.Routine

/-!
# Notices of helpers

A positioning lookup has a helper added when some context first needs it, however many contexts
need it later.  So the notices of helpers name the lookups that need one, in their order.
-/

namespace GlyphLayout

open Source (Location LookupDefinition PairAdjustment Positioning Statement)

variable {α β : Type}

/-- The lookup for which a notice says that a helper has been added. -/
def Notice.helped? : Notice → Option String
  | helperAdded lookup _ => some lookup
  | _ => none

/-- The lookups for which helpers have been added, in order. -/
def helpersAdded (log : List Notice) : List String :=
  log.filterMap Notice.helped?

@[simp] theorem helpersAdded_nil : helpersAdded [] = [] := rfl

@[simp] theorem helpersAdded_append (first second : List Notice) :
    helpersAdded (first ++ second) = helpersAdded first ++ helpersAdded second :=
  List.filterMap_append

theorem Notice.helped?_of_isRoutine
    {notice : Notice}
    (routine : notice.isRoutine) :
    notice.helped? = none := by
  cases notice <;> first | rfl | cases routine

/-- A routine step reports no helper. -/
theorem helpersAdded_of_routine
    {outcome : Outcome α}
    {log : List Notice}
    {result : Except ConversionError α}
    (routine : outcome.Routine)
    (same : outcome = ⟨log, result⟩) :
    helpersAdded log = [] := by
  subst same
  exact routine.filterMap_log fun _ => Notice.helped?_of_isRoutine

namespace Compilation

variable {definitions : Definitions} {options : Options} {lookup : LookupDefinition}
  {positioning : Positioning} {contexts : List RuleContext} {state next : Compilation}
  {log : List Notice}

/-- Outside any context no lookup needs its helper. -/
theorem any_appliesHelper_of_isPlainPairs (plain : isPlainPairs contexts positioning) :
    contexts.any (appliesHelper lookup positioning) = false := by
  cases positioning with
  | pairs firsts seconds pairs =>
      rw [List.any_eq_false]
      intro context member
      have everywhere := List.all_eq_true.mp plain context member
      simp only [Bool.not_eq_true'] at everywhere
      simp [appliesHelper, everywhere]
  | _ => cases plain

theorem routine_register (state : Compilation) (lookup : CompiledLookup) :
    (state.register lookup).Routine := by
  simp [register, Notice.isRoutine]

/-- A helper is added, and said to be, unless it is there. -/
theorem helpersAdded_of_helperFor
    {location : Location}
    {parent : CompiledLookup}
    {progress : Progress}
    {result : Compilation × String}
    (found : helperFor progress definitions location positioning parent = ⟨log, .ok result⟩) :
    helpersAdded log = if progress.helper.isNone then [parent.sourceName] else [] := by
  unfold helperFor at found
  cases helper : progress.helper with
  | some label =>
      simp only [helper] at found
      cases found
      rfl
  | none =>
      simp only [helper] at found
      obtain ⟨_, _, _, told, added, rfl⟩ := Outcome.bind_eq_ok_iff.mp found
      obtain ⟨_, _, plain⟩ := Outcome.liftM_bind_eq_ok_iff.mp added
      obtain ⟨_, _, _, registered, result, rfl⟩ := Outcome.bind_eq_ok_iff.mp plain
      cases told
      cases result
      have silent := helpersAdded_of_routine (routine_register _ _) registered
      rw [helpersAdded_append, helpersAdded_append, silent]
      rfl

/-- A construct that is skipped is reported, but is no helper. -/
theorem helpersAdded_of_skipConstruct
    {construct : Construct}
    {location : Location}
    (skipped : state.skipConstruct options construct location = ⟨log, .ok next⟩) :
    helpersAdded log = [] := by
  unfold skipConstruct at skipped
  split at skipped
  · exact (Outcome.fail_ne_ok skipped).elim
  · split at skipped <;> cases skipped <;> rfl

/-- A context that applies the helper has it added, unless an earlier one has. -/
theorem helpersAdded_of_writeContext
    {parent : CompiledLookup}
    {progress last : Progress}
    {context : RuleContext}
    (written : writeContext definitions options lookup positioning parent progress context =
      ⟨log, .ok last⟩) :
    helpersAdded log =
        (if progress.helper.isNone && appliesHelper lookup positioning context
          then [parent.sourceName] else [])
      ∧ last.helper.isNone =
        (progress.helper.isNone && !appliesHelper lookup positioning context) := by
  cases contextStep_of_writeContext written with
  | plain everywhere resolved => simp [appliesHelper, everywhere]
  | skipped contextual obstacle skipped =>
      simp [appliesHelper, obstacle, helpersAdded_of_skipConstruct skipped]
  | ignored contextual free except resolved => simp [appliesHelper, except]
  | chained contextual free within helped resolved =>
      simp [appliesHelper, contextual, free, within, helpersAdded_of_helperFor helped]

/-- Of all contexts, the first that applies the helper has it added. -/
theorem helpersAdded_of_writeContexts
    {parent : CompiledLookup}
    {progress last : Progress}
    (written : contexts.foldlM (writeContext definitions options lookup positioning parent)
      progress = ⟨log, .ok last⟩) :
    helpersAdded log =
      if progress.helper.isNone && contexts.any (appliesHelper lookup positioning)
        then [parent.sourceName] else [] := by
  induction contexts generalizing progress log with
  | nil =>
      cases written
      simp
  | cons context contexts ih =>
      rw [List.foldlM_cons] at written
      obtain ⟨_, middle, _, step, rest, rfl⟩ := Outcome.bind_eq_ok_iff.mp written
      obtain ⟨here, helper⟩ := helpersAdded_of_writeContext step
      rw [helpersAdded_append, here, ih rest, helper, List.any_cons]
      cases progress.helper.isNone <;> cases appliesHelper lookup positioning context <;> simp

/-- One helper is reported at most, however many contexts apply it. -/
theorem helpersAdded_of_addContextual
    {draft : CompiledLookup}
    (added : state.addContextual definitions options lookup positioning contexts draft =
      ⟨log, .ok next⟩) :
    helpersAdded log =
      if contexts.any (appliesHelper lookup positioning) then [draft.sourceName] else [] := by
  obtain ⟨_, _, _, written, registered, rfl⟩ := Outcome.bind_eq_ok_iff.mp added
  rw [helpersAdded_append, helpersAdded_of_writeContexts written,
    helpersAdded_of_routine (routine_register _ _) registered]
  simp

theorem routine_addPieces
    (draft : CompiledLookup)
    (pieces : List (List Feature.Rule))
    (state : Compilation)
    (index : Nat) :
    (addPieces draft state index pieces).Routine := by
  induction pieces generalizing state index with
  | nil => exact Outcome.routine_ok state
  | cons rules rest ih =>
      exact Outcome.routine_bind_iff.mpr ⟨routine_register _ _, fun next _ => ih next _⟩

/-- Pairs without contexts need no helper. -/
theorem routine_addPairs
    {location : Location}
    {firsts seconds : List Source.Coverage}
    {pairs : List PairAdjustment}
    {draft : CompiledLookup} :
    (state.addPairs definitions options location firsts seconds pairs draft).Routine := by
  unfold addPairs
  refine Outcome.routine_bind_iff.mpr ⟨by simp, fun pairs _ => ?_⟩
  dsimp only
  split
  · exact routine_register ..
  · split
    · exact routine_register ..
    · refine Outcome.routine_bind_iff.mpr ⟨by simp, fun pieces _ => ?_⟩
      split
      · exact routine_register ..
      · exact Outcome.routine_bind_iff.mpr
          ⟨by simp [Notice.isRoutine], fun _ _ => routine_addPieces ..⟩

theorem helpersAdded_of_addPositioning
    {draft : CompiledLookup}
    (added : state.addPositioning definitions options lookup positioning contexts draft =
      ⟨log, .ok next⟩) :
    helpersAdded log =
      if contexts.any (appliesHelper lookup positioning) then [draft.sourceName] else [] := by
  cases positioning with
  | pairs firsts seconds pairs =>
      obtain ⟨_, _, _, first, rest, rfl⟩ := Outcome.bind_eq_ok_iff.mp added
      obtain ⟨_, _, _, second, last, rfl⟩ := Outcome.bind_eq_ok_iff.mp rest
      rw [helpersAdded_append, helpersAdded_append,
        helpersAdded_of_routine Definitions.routine_reportOverlaps first,
        helpersAdded_of_routine Definitions.routine_reportOverlaps second]
      split at last
      · rename_i plain
        have idle : contexts.any (appliesHelper lookup (.pairs firsts seconds pairs)) = false :=
          any_appliesHelper_of_isPlainPairs plain
        rw [helpersAdded_of_routine routine_addPairs last, idle]
        rfl
      · simpa using helpersAdded_of_addContextual last
  | _ => exact helpersAdded_of_addContextual added

/-- The lookup is a positioning lookup with some context in which its helper is applied. -/
def needsHelper (definitions : Definitions) (lookup : LookupDefinition) : Bool :=
  match lookup.payload, definitions.ruleContexts lookup with
  | .positioning positioning, .ok contexts => contexts.any (appliesHelper lookup positioning)
  | _, _ => false

/-- A substitution carries its contexts in its own rules. -/
theorem needsHelper_of_substitution
    {substitution : Source.Substitution}
    (payload : lookup.payload = .substitution substitution) :
    needsHelper definitions lookup = false := by
  simp [needsHelper, payload]

theorem needsHelper_of_positioning
    (payload : lookup.payload = .positioning positioning)
    (surrounded : definitions.ruleContexts lookup = .ok contexts) :
    needsHelper definitions lookup = contexts.any (appliesHelper lookup positioning) := by
  simp [needsHelper, payload, surrounded]

/-- Compiling a lookup says once that a helper has been added, if the lookup needs it. -/
theorem helpersAdded_of_addLookup
    (added : addLookup definitions options state lookup = ⟨log, .ok next⟩) :
    helpersAdded log = if needsHelper definitions lookup then [lookup.name] else [] := by
  obtain ⟨flags, _, added⟩ := Outcome.liftM_bind_eq_ok_iff.mp added
  obtain ⟨contexts, surrounded, added⟩ := Outcome.liftM_bind_eq_ok_iff.mp added
  cases payload : lookup.payload with
  | substitution substitution =>
      simp only [payload] at added
      obtain ⟨_, _, _, written, registered, rfl⟩ := Outcome.bind_eq_ok_iff.mp added
      rw [helpersAdded_append, helpersAdded_of_routine (routine_register _ _) registered,
        helpersAdded_of_routine
          (Outcome.routine_mapM fun _ => Definitions.routine_substitutionRules) written,
        needsHelper_of_substitution payload]
      rfl
  | positioning positioning =>
      simp only [payload] at added
      rw [helpersAdded_of_addPositioning added, needsHelper_of_positioning payload surrounded]

/-- The notices of helpers name the lookups that need one, in order. -/
theorem helpersAdded_of_addStatements
    {statements : List Statement}
    (added : statements.foldlM (addStatement definitions options) state = ⟨log, .ok next⟩) :
    helpersAdded log =
      ((lookupsOf statements).filter (needsHelper definitions)).map (·.name) := by
  induction statements generalizing state log with
  | nil =>
      cases added
      rfl
  | cons statement statements ih =>
      rw [List.foldlM_cons] at added
      obtain ⟨_, _, _, step, rest, rfl⟩ := Outcome.bind_eq_ok_iff.mp added
      rw [helpersAdded_append, ih rest]
      cases statement with
      | lookup lookup =>
          have one : lookupsOf (.lookup lookup :: statements) = lookup :: lookupsOf statements :=
            rfl
          rw [helpersAdded_of_addLookup step, one, List.filter_cons]
          split <;> rfl
      | _ =>
          cases step
          rfl

theorem helpersAdded_of_ofStatements
    {statements : List Statement}
    (compiled : ofStatements definitions options statements = ⟨log, .ok state⟩) :
    helpersAdded log =
      ((lookupsOf statements).filter (needsHelper definitions)).map (·.name) := by
  obtain ⟨_, _, _, added, told, rfl⟩ := Outcome.bind_eq_ok_iff.mp compiled
  have routine (last : Compilation) : (do
      Outcome.tell (.lookupsDone last.lookups.size)
      return last).Routine := by
    simp [Notice.isRoutine]
  rw [helpersAdded_append, helpersAdded_of_routine (routine _) told, List.append_nil]
  exact helpersAdded_of_addStatements added

end Compilation
end GlyphLayout
