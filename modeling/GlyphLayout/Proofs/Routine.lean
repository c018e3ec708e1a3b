import GlyphLayout.Conversion
import GlyphLayout.Proofs.References

/-!
# Routine steps

Most steps of a conversion have nothing to do with the contexts of positioning lookups: they
report neither a helper nor a construct that is skipped, and no construct ends them.
-/

namespace GlyphLayout

variable {α β : Type}

/-- The error is a construct that a feature file cannot express. -/
def ConversionError.isUnsupported : ConversionError → Bool
  | unsupported .. => true
  | _ => false

/-- The notice is neither about a helper nor about a construct that is skipped. -/
def Notice.isRoutine : Notice → Bool
  | helperAdded .. | constructSkipped .. => false
  | _ => true

/-! ## Results -/

/-- The result is no error about a construct. -/
def Supported (result : Except ConversionError α) : Prop :=
  ∀ error, result = .error error → error.isUnsupported = false

-- The errors about constructs are one sort of errors, so these are cases of what is known of any.

@[simp] theorem supported_ok (value : α) : Supported (.ok value) :=
  failsOnly_ok value

@[simp] theorem supported_pure (value : α) :
    Supported (pure value : Except ConversionError α) :=
  failsOnly_pure value

@[simp] theorem supported_error_iff {error : ConversionError} :
    Supported (.error error : Except ConversionError α) ↔ error.isUnsupported = false :=
  failsOnly_error_iff

/-- Two steps end with no construct if neither does, the second after any value of the first. -/
@[simp] theorem supported_bind_iff
    {first : Except ConversionError α}
    {next : α → Except ConversionError β} :
    Supported (first >>= next) ↔
      Supported first ∧ ∀ value, first = .ok value → Supported (next value) :=
  failsOnly_bind_iff

@[simp] theorem supported_map_iff
    {result : Except ConversionError α}
    {change : α → β} :
    Supported (change <$> result) ↔ Supported result :=
  failsOnly_map_iff

/-- No item of a list ends with a construct if no item ever does. -/
@[simp] theorem supported_mapM
    {action : α → Except ConversionError β}
    {items : List α}
    (each : ∀ item, Supported (action item)) :
    Supported (items.mapM action) :=
  failsOnly_mapM fun item _ => each item

@[simp] theorem supported_foldlM
    {step : β → α → Except ConversionError β}
    {items : List α}
    {start : β}
    (each : ∀ state item, Supported (step state item)) :
    Supported (items.foldlM step start) :=
  failsOnly_foldlM fun state item _ => each state item

/-- A reference is no construct. -/
@[simp] theorem supported_of_failsByReference
    {result : Except ConversionError α}
    (fails : FailsByReference result) :
    Supported result :=
  fails.mono fun error reference => by
    cases error <;> first | rfl | cases reference

/-! ## Outcomes -/

namespace Outcome

/-- The step gives routine notices only, and no construct ends it. -/
structure Routine (outcome : Outcome α) : Prop where
  notices : ∀ notice ∈ outcome.log, notice.isRoutine
  supported : Supported outcome.result

/-- What is found in notices of other sorts only is not found in the log. -/
theorem Routine.filterMap_log
    {outcome : Outcome α}
    {find : Notice → Option β}
    (routine : Routine outcome)
    (silent : ∀ notice : Notice, notice.isRoutine → find notice = none) :
    outcome.log.filterMap find = [] :=
  List.filterMap_eq_nil_iff.mpr fun notice member =>
    silent notice (routine.notices notice member)

@[simp] theorem routine_ok (value : α) : Routine ⟨[], .ok value⟩ :=
  ⟨by simp, by simp⟩

@[simp] theorem routine_ofExcept_iff {result : Except ConversionError α} :
    Routine (ofExcept result) ↔ Supported result :=
  ⟨Routine.supported, fun supported => ⟨by simp [ofExcept], supported⟩⟩

@[simp] theorem routine_fail_iff {error : ConversionError} :
    Routine (fail error : Outcome α) ↔ error.isUnsupported = false :=
  ⟨fun routine => routine.supported error rfl,
    fun plain => ⟨by simp [fail], supported_error_iff.mpr plain⟩⟩

@[simp] theorem routine_tell_iff {notice : Notice} :
    Routine (tell notice) ↔ notice.isRoutine :=
  ⟨fun routine => routine.notices notice (List.mem_singleton_self _),
    fun plain => ⟨by simpa [tell] using plain, by simp [tell]⟩⟩

@[simp] theorem routine_tellIf_iff {condition : Bool} {notice : Notice} :
    Routine (tellIf condition notice) ↔ (condition = true → notice.isRoutine) := by
  unfold tellIf
  split <;> rename_i holds
  · simp [holds]
  · exact ⟨fun _ told => absurd told holds, fun _ => routine_ok ()⟩

/-- Two steps are routine if both are, the second after any value of the first. -/
@[simp] theorem routine_bind_iff
    {first : Outcome α}
    {next : α → Outcome β} :
    Routine (first >>= next) ↔
      Routine first ∧ ∀ value, first.result = .ok value → Routine (next value) := by
  obtain ⟨log, error | value⟩ := first
  · rw [bind_error]
    exact ⟨fun routine => ⟨⟨routine.notices, supported_error_iff.mpr
        (supported_error_iff.mp routine.supported)⟩, nofun⟩,
      fun both => ⟨both.1.notices, supported_error_iff.mpr
        (supported_error_iff.mp both.1.supported)⟩⟩
  · rw [bind_ok]
    constructor
    · rintro ⟨notices, supported⟩
      obtain ⟨before, after⟩ := List.forall_mem_append.mp notices
      refine ⟨⟨before, supported_ok value⟩, fun other same => ?_⟩
      cases same
      exact ⟨after, supported⟩
    · rintro ⟨before, after⟩
      have last := after value rfl
      exact ⟨List.forall_mem_append.mpr ⟨before.notices, last.notices⟩, last.supported⟩

/-- A list of routine steps is routine. -/
@[simp] theorem routine_mapM
    {action : α → Outcome β}
    {items : List α}
    (each : ∀ item, Routine (action item)) :
    Routine (items.mapM action) := by
  induction items with
  | nil => simp
  | cons item items ih => simp [List.mapM_cons, each item, ih]

/-- Steps that are routine in every state are routine in a row. -/
@[simp] theorem routine_foldlM
    {step : β → α → Outcome β}
    {items : List α}
    {start : β}
    (each : ∀ state item, Routine (step state item)) :
    Routine (items.foldlM step start) := by
  induction items generalizing start with
  | nil => simp
  | cons item items ih => simp [List.foldlM_cons, each, ih]

end Outcome

namespace Definitions

open Outcome (Routine)
open Source (Coverage CoverageItem Location LookupDefinition PairAdjustment Positioning Statement)

variable {definitions : Definitions} {location : Location}

/-! ## Rules of lookups -/

/-- The report of classes that overlap is not about a helper or a construct. -/
@[simp] theorem routine_reportOverlaps
    {name : String}
    {side : Side}
    {coverages : List Coverage} :
    Routine (definitions.reportOverlaps location name side coverages) := by
  simp [reportOverlaps, Notice.isRoutine]

@[simp] theorem routine_mappingRule
    {kind : Source.SubstitutionKind}
    {context : RuleContext}
    {mapping : Source.Mapping} :
    Routine (definitions.mappingRule kind context mapping) := by
  unfold mappingRule
  split
  · simp [Notice.isRoutine]
  · simp only [Outcome.routine_bind_iff, Outcome.liftM_eq_ofExcept,
      Outcome.routine_ofExcept_iff, supported_of_failsByReference, failsByReference_resolve,
      true_and]
    intro input _
    split
    · simp
    · simp only [Outcome.routine_bind_iff, Outcome.routine_ofExcept_iff,
        supported_of_failsByReference, failsByReference_resolve, true_and]
      intro output _
      split <;> simp [ConversionError.isUnsupported]

/-- A substitution is no construct that could be skipped. -/
@[simp] theorem routine_substitutionRules
    {substitution : Source.Substitution}
    {context : RuleContext} :
    Routine (definitions.substitutionRules substitution context) := by
  simp [substitutionRules]

/-! ## Collecting definitions -/

/-- A glyph may be missing from the font, but it is no construct. -/
theorem supported_addGlyph {glyph : Source.GlyphDefinition} :
    Supported (definitions.addGlyph glyph) := by
  have named : Supported (definitions.nameFor glyph) := by
    unfold nameFor
    split
    · simp
    · split <;> simp [ConversionError.isUnsupported]
  simp [addGlyph, named]

/-- A feature defined twice is an error, but no construct. -/
theorem supported_addScript {script : Source.ScriptDefinition} :
    Supported (definitions.addScript script) := by
  have each (features : LanguageSystems) (feature script language : Tag)
      (lookups : FeatureLookups) :
      Supported (addLanguageSystem features feature script language lookups) := by
    unfold addLanguageSystem
    dsimp only
    split <;> simp [ConversionError.isUnsupported]
  simp [addScript, addLanguages, each]

/-- No definition ends for a construct, or tells of one. -/
theorem routine_add {statement : Statement} : Routine (definitions.add statement) := by
  cases statement with
  | glyph glyph => simp [add, supported_addGlyph]
  | group group => simp [add, addGroup, Notice.isRoutine]
  | script script => simp [add, supported_addScript]
  | lookup lookup => simp [add]
  | anchor anchor =>
      unfold add addAnchor
      refine Outcome.routine_bind_iff.mpr ⟨by simp [Notice.isRoutine], fun _ _ => ?_⟩
      dsimp only
      split <;> simp
  | setting setting =>
      unfold add addSetting
      dsimp only
      split <;> simp [Notice.isRoutine]

/-- Constructs are met when lookups are translated, and not when definitions are collected. -/
theorem routine_collect {statements : List Statement} {glyphOrder : Option GlyphOrder} :
    Routine (collect statements glyphOrder) := by
  simp [collect, routine_add, Notice.isRoutine]

end Definitions

namespace Compilation

open Outcome (Routine)

/-! ## Feature files -/

theorem routine_merge (state : Compilation) : Routine state.merge := by
  have stray : Routine state.reportStrayPieces := by
    unfold reportStrayPieces
    induction state.lookups.values with
    | nil => exact Outcome.routine_ok ()
    | cons lookup rest ih =>
        exact Outcome.routine_bind_iff.mpr ⟨by simp [Notice.isRoutine], fun _ _ => ih⟩
  have flags (first : CompiledLookup) (others : List CompiledLookup) :
      Routine (reportFlags first others) := by
    unfold reportFlags
    split <;> simp [Notice.isRoutine]
  have each (merging : Merging) (entry : String × CompiledLookup) :
      Routine (state.mergeLookup merging entry) := by
    unfold mergeLookup
    dsimp only
    split
    · simp
    · split <;> simp [flags, Notice.isRoutine]
  simp [merge, stray, each]

theorem routine_featureBlocks {merged : MergedLookups} {features : LanguageSystems} :
    Routine (merged.featureBlocks features) := by
  have each (feature : Tag) (references : FeatureLookups) (labels : List String)
      (name : String) : Routine (merged.addReference feature references labels name) := by
    unfold MergedLookups.addReference
    split
    · simp [ConversionError.isUnsupported]
    · simp [Notice.isRoutine]
    · simp
  have systems (feature : Tag) (script : Tag × OrderedMap Tag FeatureLookups) :
      Routine (merged.scriptSystems feature script) := by
    simp [MergedLookups.scriptSystems, MergedLookups.references, each]
  refine Outcome.routine_mapM fun feature => ?_
  exact Outcome.routine_bind_iff.mpr
    ⟨Outcome.routine_mapM fun script => systems feature.1 script, by simp⟩

/-- The assembly finds every construct translated or skipped. -/
theorem routine_assemble {definitions : Definitions} {state : Compilation} :
    Routine (assemble definitions state) := by
  simp [assemble, routine_merge, routine_featureBlocks]

/-- A text is read before there are constructs to tell of. -/
theorem routine_readSource {text : String} : Routine (readSource text) := by
  unfold readSource
  split <;> simp [ConversionError.isUnsupported]

end Compilation
end GlyphLayout
