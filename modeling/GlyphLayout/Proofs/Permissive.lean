import GlyphLayout.Proofs.Routine
import GlyphLayout.Proofs.SameUnless

/-!
# Strict and permissive conversions

A strict conversion ends at the first construct that a feature file cannot express, and a
permissive one skips it and says so.  Until then the two run in lockstep.  After it the
permissive conversion keeps a list of the constructs that it has reported, and reports none of
them twice.
-/

namespace GlyphLayout

open Feature (Document)
open Source (Location LookupDefinition PairAdjustment Positioning Statement)

variable {α β : Type}

/-! ## Two runs in lockstep -/

/-- Two runs are the same, unless a construct ends the first. -/
structure Lockstep (strict permissive : Outcome α) : Prop where
  eq_of_supported : Supported strict.result → permissive = strict

/-- The errors about constructs are one sort of errors that may stop a run. -/
theorem lockstep_iff {strict permissive : Outcome α} :
    Lockstep strict permissive ↔
      (Comparison.unless ConversionError.isUnsupported).SameRun strict permissive :=
  ⟨fun same => ⟨same.eq_of_supported⟩, fun same => ⟨same.eq_of_notStopped⟩⟩

namespace Lockstep

theorem refl (outcome : Outcome α) : Lockstep outcome outcome :=
  ⟨fun _ => rfl⟩

/-- Steps in lockstep make runs in lockstep. -/
theorem bind
    {strict permissive : Outcome α}
    {strictNext permissiveNext : α → Outcome β}
    (first : Lockstep strict permissive)
    (next : ∀ value, Lockstep (strictNext value) (permissiveNext value)) :
    Lockstep (strict >>= strictNext) (permissive >>= permissiveNext) :=
  lockstep_iff.mpr ((lockstep_iff.mp first).bind fun value => lockstep_iff.mp (next value))

theorem foldlM
    {strictStep permissiveStep : β → α → Outcome β}
    (each : ∀ state item, Lockstep (strictStep state item) (permissiveStep state item))
    (items : List α)
    (start : β) :
    Lockstep (items.foldlM strictStep start) (items.foldlM permissiveStep start) :=
  lockstep_iff.mpr (.foldlM (fun state item => lockstep_iff.mp (each state item)) items start)

end Lockstep

namespace Compilation

variable {definitions : Definitions} {strict permissive : Options} {lookup : LookupDefinition}
  {positioning : Positioning}

/-- A strict run does not get past a construct. -/
theorem lockstep_skipConstruct
    (isStrict : strict.strict = true)
    (state : Compilation)
    (construct : Construct)
    (location : Location) :
    Lockstep (state.skipConstruct strict construct location)
      (state.skipConstruct permissive construct location) := by
  refine ⟨fun supported => ?_⟩
  rw [skipConstruct, if_pos isStrict] at supported
  simp [Outcome.fail, ConversionError.isUnsupported] at supported

/-- Two runs part ways at a construct that only one of them skips. -/
theorem lockstep_writeContext
    (isStrict : strict.strict = true)
    (parent : CompiledLookup)
    (progress : Progress)
    (context : RuleContext) :
    Lockstep
      (writeContext definitions strict lookup positioning parent progress context)
      (writeContext definitions permissive lookup positioning parent progress context) := by
  unfold writeContext
  split
  · exact .refl _
  · split
    · exact (lockstep_skipConstruct isStrict ..).bind fun _ => .refl _
    · exact .refl _

theorem lockstep_addContextual
    (isStrict : strict.strict = true)
    (state : Compilation)
    (contexts : List RuleContext)
    (draft : CompiledLookup) :
    Lockstep
      (state.addContextual definitions strict lookup positioning contexts draft)
      (state.addContextual definitions permissive lookup positioning contexts draft) :=
  (Lockstep.foldlM (lockstep_writeContext isStrict _) contexts _).bind fun _ => .refl _

/-- A positioning is treated alike in both runs, pieces included, if the limits are the same. -/
theorem lockstep_addPositioning
    (isStrict : strict.strict = true)
    (sameLimit : permissive.pairLimit = strict.pairLimit)
    (state : Compilation)
    (contexts : List RuleContext)
    (draft : CompiledLookup) :
    Lockstep
      (state.addPositioning definitions strict lookup positioning contexts draft)
      (state.addPositioning definitions permissive lookup positioning contexts draft) := by
  cases positioning with
  | pairs firsts seconds pairs =>
      unfold addPositioning
      refine (Lockstep.refl _).bind fun _ => (Lockstep.refl _).bind fun _ => ?_
      split
      · simp only [addPairs, sameLimit]
        exact .refl _
      · exact lockstep_addContextual isStrict ..
  | _ => exact lockstep_addContextual isStrict ..

theorem lockstep_addStatement
    (isStrict : strict.strict = true)
    (sameLimit : permissive.pairLimit = strict.pairLimit)
    (state : Compilation)
    (statement : Statement) :
    Lockstep
      (addStatement definitions strict state statement)
      (addStatement definitions permissive state statement) := by
  cases statement with
  | lookup lookup =>
      unfold addStatement addLookup
      refine (Lockstep.refl _).bind fun flags => (Lockstep.refl _).bind fun contexts => ?_
      dsimp only
      split
      · exact .refl _
      · exact lockstep_addPositioning isStrict sameLimit ..
  | _ => exact .refl _

end Compilation

/-- Whole conversions go in lockstep, up to the first construct. -/
theorem lockstep_convert
    {strict permissive : Options}
    (isStrict : strict.strict = true)
    (sameLimit : permissive.pairLimit = strict.pairLimit)
    (statements : List Statement)
    (glyphOrder : Option GlyphOrder) :
    Lockstep (convert statements glyphOrder strict) (convert statements glyphOrder permissive) := by
  unfold convert Compilation.ofStatements
  refine (Lockstep.refl _).bind fun definitions => Lockstep.bind ?_ fun _ => .refl _
  refine Lockstep.bind ?_ fun _ => .refl _
  exact Lockstep.foldlM (Compilation.lockstep_addStatement isStrict sameLimit) statements {}

/-! ## Skipping constructs once -/

/-- The construct that a notice reports as skipped. -/
def Notice.skipped? : Notice → Option Construct
  | constructSkipped _ construct => some construct
  | _ => none

/-- The constructs that a log reports as skipped, in order. -/
def skippedConstructs (log : List Notice) : List Construct :=
  log.filterMap Notice.skipped?

@[simp] theorem skippedConstructs_append (first second : List Notice) :
    skippedConstructs (first ++ second) = skippedConstructs first ++ skippedConstructs second :=
  List.filterMap_append

theorem Notice.skipped?_of_isRoutine
    {notice : Notice}
    (routine : notice.isRoutine) :
    notice.skipped? = none := by
  cases notice <;> first | rfl | cases routine

/--
Starting with the constructs that have been reported, a run reports none of them again and none
of its own twice, and no construct ends it.
-/
structure ReportsOnce (outcome : Outcome α) (before : List Construct) : Prop where
  supported : Supported outcome.result
  nodup : before.Nodup → ((skippedConstructs outcome.log).reverse ++ before).Nodup

/-- The result may be worked on. -/
theorem ReportsOnce.bind_pure
    {outcome : Outcome α}
    {before : List Construct}
    (once : ReportsOnce outcome before)
    (change : α → β) :
    ReportsOnce (outcome >>= fun value => pure (change value)) before := by
  obtain ⟨log, error | value⟩ := outcome
  · exact ⟨supported_error_iff.mpr (supported_error_iff.mp once.supported), once.nodup⟩
  · exact ⟨supported_ok _, fun distinct => by simpa [Outcome.bind_ok] using once.nodup distinct⟩

/-- A run whose result keeps the constructs that have been reported, the last in front. -/
structure SkipsOnce (outcome : Outcome α) (before : List Construct)
    (reported : α → List Construct) : Prop extends ReportsOnce outcome before where
  reported_eq : ∀ value, outcome.result = .ok value →
    reported value = (skippedConstructs outcome.log).reverse ++ before

namespace SkipsOnce

variable {before : List Construct} {reported : α → List Construct} {next : β → List Construct}

theorem pure (value : α) (same : reported value = before) :
    SkipsOnce (Pure.pure value) before reported where
  supported := supported_ok value
  nodup distinct := distinct
  reported_eq := by
    rintro _ ⟨⟩
    exact same

/-- A run that reports no construct. -/
theorem of_silent
    {outcome : Outcome α}
    (supported : Supported outcome.result)
    (silent : skippedConstructs outcome.log = []) :
    SkipsOnce outcome before fun _ => before where
  supported := supported
  nodup distinct := by simpa [silent] using distinct
  reported_eq _ _ := by simp [silent]

/-- A routine step skips nothing, so what was reported before is all. -/
theorem of_routine
    {outcome : Outcome α}
    (routine : outcome.Routine) :
    SkipsOnce outcome before fun _ => before :=
  of_silent routine.supported (routine.filterMap_log fun _ => Notice.skipped?_of_isRoutine)

/-- What comes second goes on with the constructs that the first run has reported. -/
theorem bind_reportsOnce
    {first : Outcome α}
    {rest : α → Outcome β}
    (head : SkipsOnce first before reported)
    (tail : ∀ value, ReportsOnce (rest value) (reported value)) :
    ReportsOnce (first >>= rest) before := by
  obtain ⟨log, error | value⟩ := first
  · exact ⟨supported_error_iff.mpr (supported_error_iff.mp head.supported), head.nodup⟩
  · have same : reported value = (skippedConstructs log).reverse ++ before :=
      head.reported_eq value rfl
    refine ⟨(tail value).supported, fun distinct => ?_⟩
    have all := (tail value).nodup (same ▸ head.nodup distinct)
    rw [same] at all
    simpa [Outcome.bind_ok] using all

theorem bind
    {first : Outcome α}
    {rest : α → Outcome β}
    (head : SkipsOnce first before reported)
    (tail : ∀ value, SkipsOnce (rest value) (reported value) next) :
    SkipsOnce (first >>= rest) before next := by
  refine ⟨head.bind_reportsOnce fun value => (tail value).toReportsOnce, ?_⟩
  obtain ⟨log, error | value⟩ := first
  · exact nofun
  · intro result found
    rw [(tail value).reported_eq result found, head.reported_eq value rfl]
    simp [Outcome.bind_ok]

/-- A step in front that has nothing to do with constructs. -/
theorem routine_bind
    {first : Outcome α}
    {rest : α → Outcome β}
    (routine : first.Routine)
    (tail : ∀ value, SkipsOnce (rest value) before next) :
    SkipsOnce (first >>= rest) before next :=
  (of_routine routine).bind tail

/-- A notice in front about something else. -/
theorem tell_bind
    {notice : Notice}
    {rest : Unit → Outcome β}
    (silent : notice.skipped? = none)
    (tail : SkipsOnce (rest ()) before next) :
    SkipsOnce (Outcome.tell notice >>= rest) before next :=
  (of_silent (supported_ok ()) (by simp [skippedConstructs, Outcome.tell, silent])).bind
    fun _ => tail

theorem foldlM
    {step : β → α → Outcome β}
    (each : ∀ state item, SkipsOnce (step state item) (next state) next)
    (items : List α)
    (start : β) :
    SkipsOnce (items.foldlM step start) (next start) next := by
  induction items generalizing start with
  | nil => exact pure start rfl
  | cons item items ih =>
      rw [List.foldlM_cons]
      exact (each start item).bind ih

end SkipsOnce

namespace Compilation

variable {definitions : Definitions} {options : Options} {lookup : LookupDefinition}
  {positioning : Positioning}

theorem skipsOnce_register (state : Compilation) (lookup : CompiledLookup) :
    SkipsOnce (state.register lookup) state.reported reported :=
  .routine_bind (by simp [Notice.isRoutine]) fun _ => .pure _ rfl

/-- A construct is reported unless it has been, and then counts as reported. -/
theorem skipsOnce_skipConstruct
    (permissive : options.strict = false)
    (state : Compilation)
    (construct : Construct)
    (location : Location) :
    SkipsOnce (state.skipConstruct options construct location) state.reported reported := by
  unfold skipConstruct
  rw [if_neg (by simp [permissive])]
  split
  · exact .pure state rfl
  · rename_i fresh
    refine ⟨⟨supported_ok _, fun distinct => ?_⟩, ?_⟩
    · exact List.nodup_cons.mpr ⟨fresh, distinct⟩
    · rintro _ ⟨⟩
      rfl

/-- A helper is added without a construct being skipped. -/
theorem skipsOnce_helperFor
    (progress : Progress)
    (location : Location)
    (parent : CompiledLookup) :
    SkipsOnce (helperFor progress definitions location positioning parent)
      progress.state.reported fun found => found.1.reported := by
  unfold helperFor
  split
  · exact .pure _ rfl
  · refine SkipsOnce.tell_bind rfl (.routine_bind (by simp) fun plain => ?_)
    exact (skipsOnce_register _ _).bind fun next => .pure _ rfl

/-- A context that cannot be expressed is reported unless its construct has been before. -/
theorem skipsOnce_writeContext
    (permissive : options.strict = false)
    (parent : CompiledLookup)
    (progress : Progress)
    (context : RuleContext) :
    SkipsOnce (writeContext definitions options lookup positioning parent progress context)
      progress.state.reported fun progress => progress.state.reported := by
  unfold writeContext
  split
  · exact .routine_bind (by simp) fun plain => .pure _ rfl
  · split
    · exact (skipsOnce_skipConstruct permissive ..).bind fun state => .pure _ rfl
    · split
      · exact .routine_bind (by simp) fun inputs => .pure _ rfl
      · exact (skipsOnce_helperFor ..).bind fun found =>
          .routine_bind (by simp) fun inputs => .pure _ rfl

theorem skipsOnce_addContextual
    (permissive : options.strict = false)
    (state : Compilation)
    (contexts : List RuleContext)
    (draft : CompiledLookup) :
    SkipsOnce (state.addContextual definitions options lookup positioning contexts draft)
      state.reported reported :=
  (SkipsOnce.foldlM (skipsOnce_writeContext permissive _) contexts { state }).bind
    fun _ => skipsOnce_register ..

theorem skipsOnce_addPieces
    (draft : CompiledLookup)
    (pieces : List (List Feature.Rule))
    (state : Compilation)
    (index : Nat) :
    SkipsOnce (addPieces draft state index pieces) state.reported reported := by
  induction pieces generalizing state index with
  | nil => exact .pure state rfl
  | cons rules rest ih => exact (skipsOnce_register _ _).bind fun next => ih next _

theorem skipsOnce_addPairs
    (state : Compilation)
    (location : Location)
    (firsts seconds : List Source.Coverage)
    (pairs : List PairAdjustment)
    (draft : CompiledLookup) :
    SkipsOnce (state.addPairs definitions options location firsts seconds pairs draft)
      state.reported reported := by
  unfold addPairs
  refine .routine_bind (by simp) fun pairs => ?_
  dsimp only
  split
  · exact skipsOnce_register ..
  · split
    · exact skipsOnce_register ..
    · refine .routine_bind (by simp) fun pieces => ?_
      split
      · exact skipsOnce_register ..
      · exact .tell_bind rfl (skipsOnce_addPieces ..)

theorem skipsOnce_addPositioning
    (permissive : options.strict = false)
    (state : Compilation)
    (contexts : List RuleContext)
    (draft : CompiledLookup) :
    SkipsOnce (state.addPositioning definitions options lookup positioning contexts draft)
      state.reported reported := by
  cases positioning with
  | pairs firsts seconds pairs =>
      unfold addPositioning
      refine .routine_bind (by simp) fun _ => .routine_bind (by simp) fun _ => ?_
      split
      · exact skipsOnce_addPairs ..
      · exact skipsOnce_addContextual permissive ..
  | _ => exact skipsOnce_addContextual permissive ..

/-- Each statement reports the constructs that it is the first to skip. -/
theorem skipsOnce_addStatement
    (permissive : options.strict = false)
    (state : Compilation)
    (statement : Statement) :
    SkipsOnce (addStatement definitions options state statement) state.reported reported := by
  cases statement with
  | lookup lookup =>
      unfold addStatement addLookup
      refine .routine_bind (by simp) fun flags => .routine_bind (by simp) fun contexts => ?_
      dsimp only
      split
      · exact .routine_bind (by simp) fun rules => skipsOnce_register ..
      · exact skipsOnce_addPositioning permissive ..
  | _ => exact .pure state rfl

end Compilation

/-- A permissive conversion skips whatever cannot be expressed, and reports it once. -/
theorem reportsOnce_convert
    {options : Options}
    (permissive : options.strict = false)
    (statements : List Statement)
    (glyphOrder : Option GlyphOrder) :
    ReportsOnce (convert statements glyphOrder options) [] := by
  unfold convert
  refine (SkipsOnce.of_routine Definitions.routine_collect).bind_reportsOnce fun definitions => ?_
  have compiled : SkipsOnce
      (Compilation.ofStatements definitions options statements) [] Compilation.reported :=
    (SkipsOnce.foldlM (Compilation.skipsOnce_addStatement permissive) statements {}).bind
      fun state => .tell_bind rfl (.pure state rfl)
  exact compiled.bind_reportsOnce fun state =>
    (SkipsOnce.of_routine Compilation.routine_assemble).toReportsOnce

/-! ## Agreement -/

/-- What the outcome of a strict conversion says about that of a permissive one. -/
structure Agrees (strict permissive : Outcome α) : Prop where
  of_ok : ∀ value, strict.result = .ok value → permissive = ⟨strict.log, .ok value⟩
  of_error : ∀ error, strict.result = .error error → error.isUnsupported = false →
    permissive = ⟨strict.log, .error error⟩
  supported : ∀ construct location,
    permissive.result ≠ .error (.unsupported construct location)
  nodup : (skippedConstructs permissive.log).Nodup

/-- Lockstep and one report per construct are all that agreement asks for. -/
theorem agrees_of_lockstep
    {strict permissive : Outcome α}
    (lockstep : Lockstep strict permissive)
    (once : ReportsOnce permissive []) :
    Agrees strict permissive := by
  have same (ends : Supported strict.result) : permissive = strict :=
    lockstep.eq_of_supported ends
  refine ⟨fun value ok => ?_, fun error failed plain => ?_, fun construct location ended => ?_,
    (List.reverse_perm _).nodup_iff.mp (by simpa using once.nodup .nil)⟩
  · rw [same (by simp [ok]), ← ok]
  · rw [same (by simp [failed, plain]), ← failed]
  · have := once.supported _ ended
    cases this

/--
Whether the constructs that a feature file cannot express are skipped makes no difference to
other projects, for their statements as for their text.
-/
theorem permissive_agrees_with_strict (glyphOrder : Option GlyphOrder) (pairLimit : Option Nat) :
    (∀ statements, Agrees
      (convert statements glyphOrder { strict := true, pairLimit })
      (convert statements glyphOrder { strict := false, pairLimit }))
    ∧ ∀ text, Agrees
      (convertText text glyphOrder { strict := true, pairLimit })
      (convertText text glyphOrder { strict := false, pairLimit }) := by
  let strict : Options := { strict := true, pairLimit }
  let permissive : Options := { strict := false, pairLimit }
  have lockstep (statements : List Statement) :
      Lockstep (convert statements glyphOrder strict) (convert statements glyphOrder permissive) :=
    lockstep_convert (by rfl) (by rfl) statements glyphOrder
  have once (statements : List Statement) :
      ReportsOnce (convert statements glyphOrder permissive) [] :=
    reportsOnce_convert (by rfl) statements glyphOrder
  refine ⟨fun statements => agrees_of_lockstep (lockstep statements) (once statements),
    fun text => agrees_of_lockstep ?_ ?_⟩ <;> unfold convertText
  · refine Lockstep.bind (.refl (readSource text)) fun statements => ?_
    refine Lockstep.bind (.refl (Outcome.tell (.parsed statements.length))) fun _ => ?_
    exact (lockstep statements).bind fun _ => .refl _
  · refine (SkipsOnce.of_routine Compilation.routine_readSource).bind_reportsOnce
      fun statements => ?_
    refine (SkipsOnce.of_routine (Outcome.routine_tell_iff.mpr rfl)).bind_reportsOnce fun _ => ?_
    exact (once statements).bind_pure Feature.Document.text

/-- A lookup that joins glyphs in a context, which a feature file cannot express. -/
def joiningInContext (name : String) (line : Nat) : Statement :=
  .lookup {
    name
    processBase := true
    marks := .all
    direction := some .rightToLeft
    reversal := false
    comments := none
    contexts := [⟨.within, [[.glyph "x"]], []⟩]
    payload := .positioning (.cursive [] [])
    location := ⟨line, 1⟩ }

example :
    let project := [joiningInContext "first" 1, joiningInContext "second" 2]
    (convert project none {}).result.isOk = false
      ∧ skippedConstructs (convert project none { strict := false }).log =
        [.contextualCursive] := by
  decide +kernel

end GlyphLayout
