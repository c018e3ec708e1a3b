import GlyphLayout.Proofs.Outcome

/-!
# What a step can fail with

A step of a conversion is described by the errors with which it can end.  A run ends with such
errors as its steps do.
-/

namespace GlyphLayout

variable {α β γ : Type} {sort : ConversionError → Prop}

/-- Every error that is the result is of the given sort. -/
def FailsOnly (sort : ConversionError → Prop) (result : Except ConversionError α) : Prop :=
  ∀ error, result = .error error → sort error

/-- Errors of a narrow sort are errors of a wide one. -/
theorem FailsOnly.mono
    {narrow wide : ConversionError → Prop}
    {result : Except ConversionError α}
    (fails : FailsOnly narrow result)
    (weaker : ∀ error, narrow error → wide error) :
    FailsOnly wide result :=
  fun error same => weaker error (fails error same)

/-- The error that is the result, if there is one. -/
def error? : Except ConversionError α → Option ConversionError
  | .ok _ => none
  | .error error => some error

theorem eq_error_of_error?
    {result : Except ConversionError α}
    {error : ConversionError}
    (found : error? result = some error) :
    result = .error error := by
  cases result with
  | ok value => cases found
  | error other => rw [Option.some.inj found]

/-- What is said of all errors is said of the one error that there may be. -/
theorem failsOnly_iff_error? {result : Except ConversionError α} :
    FailsOnly sort result ↔ ∀ error, error? result = some error → sort error := by
  refine ⟨fun fails error found => fails error (eq_error_of_error? found), ?_⟩
  rintro fails error rfl
  exact fails error rfl

@[simp] theorem error?_pure (value : α) :
    error? (pure value : Except ConversionError α) = none := rfl

/-- A result without an error is a value. -/
theorem error?_eq_none_iff {result : Except ConversionError α} :
    error? result = none ↔ ∃ value, result = .ok value := by
  cases result with
  | ok value => exact ⟨fun _ => ⟨value, rfl⟩, fun _ => rfl⟩
  | error error => exact ⟨nofun, nofun⟩

/-- What is done with a result has no part in its failure. -/
@[simp] theorem error?_bind_pure
    (result : Except ConversionError α)
    (change : α → β) :
    error? (do return change (← result)) = error? result := by
  cases result <;> rfl

/-- Of two steps, the first that fails ends both. -/
@[simp] theorem error?_bind_bind_pure
    (first : Except ConversionError α)
    (second : Except ConversionError β)
    (join : α → β → γ) :
    error? (do
      let value ← first
      let other ← second
      return join value other) = (error? first).or (error? second) := by
  cases first with
  | ok value => exact error?_bind_pure second (join value)
  | error error => rfl

/-! ## Results -/

@[simp] theorem failsOnly_ok (value : α) : FailsOnly sort (.ok value) := nofun

@[simp] theorem failsOnly_pure (value : α) :
    FailsOnly sort (pure value : Except ConversionError α) := nofun

@[simp] theorem failsOnly_error_iff {error : ConversionError} :
    FailsOnly sort (.error error : Except ConversionError α) ↔ sort error :=
  ⟨fun fails => fails error rfl, fun holds _ same => Except.error.inj same ▸ holds⟩

@[simp] theorem failsOnly_throw_iff {error : ConversionError} :
    FailsOnly sort (throw error : Except ConversionError α) ↔ sort error :=
  failsOnly_error_iff

/-- Two steps fail by errors of a sort if each does, the second after any value of the first. -/
@[simp] theorem failsOnly_bind_iff
    {first : Except ConversionError α}
    {next : α → Except ConversionError β} :
    FailsOnly sort (first >>= next) ↔
      FailsOnly sort first ∧ ∀ value, first = .ok value → FailsOnly sort (next value) := by
  cases first with
  | error error =>
      exact ⟨fun fails => ⟨fun _ same => fails _ (Except.error.inj same ▸ rfl), nofun⟩,
        fun both _ same => both.1 _ (Except.error.inj same ▸ rfl)⟩
  | ok value =>
      exact ⟨fun fails => ⟨nofun, fun _ same => Except.ok.inj same ▸ fails⟩,
        fun both => both.2 value rfl⟩

@[simp] theorem failsOnly_map_iff
    {result : Except ConversionError α}
    {change : α → β} :
    FailsOnly sort (change <$> result) ↔ FailsOnly sort result := by
  cases result with
  | error error => exact failsOnly_error_iff.trans failsOnly_error_iff.symm
  | ok value => exact ⟨fun _ => failsOnly_ok value, fun _ => failsOnly_ok (change value)⟩

/-- A list fails by the errors of its items. -/
@[simp] theorem failsOnly_mapM
    {action : α → Except ConversionError β}
    {items : List α}
    (each : ∀ item ∈ items, FailsOnly sort (action item)) :
    FailsOnly sort (items.mapM action) := by
  induction items with
  | nil => simp
  | cons item items ih =>
      obtain ⟨head, tail⟩ := List.forall_mem_cons.mp each
      simp [List.mapM_cons, head, ih tail]

/-- Steps in a row fail by their own errors, whatever the state. -/
@[simp] theorem failsOnly_foldlM
    {step : β → α → Except ConversionError β}
    {items : List α}
    {start : β}
    (each : ∀ state, ∀ item ∈ items, FailsOnly sort (step state item)) :
    FailsOnly sort (items.foldlM step start) := by
  induction items generalizing start with
  | nil => simp
  | cons item items ih =>
      rw [List.foldlM_cons, failsOnly_bind_iff]
      exact ⟨each start item (List.mem_cons_self ..), fun next _ =>
        ih fun state other listed => each state other (List.mem_cons_of_mem _ listed)⟩

/-! ## Outcomes -/

namespace Outcome

/-- The notices that are given have no influence on the result. -/
theorem result_bind (first : Outcome α) (next : α → Outcome β) :
    (first >>= next).result = first.result >>= fun value => (next value).result := by
  obtain ⟨log, error | value⟩ := first <;> rfl

/-- The result of a list of steps does not depend on what they report. -/
theorem result_mapM (action : α → Outcome β) (items : List α) :
    (items.mapM action).result = items.mapM fun item => (action item).result := by
  induction items with
  | nil => rfl
  | cons item items ih => simp only [List.mapM_cons, result_bind, ih]; rfl

/-- The result of steps in a row does not depend on what they report. -/
theorem result_foldlM (step : β → α → Outcome β) (items : List α) (start : β) :
    (items.foldlM step start).result =
      items.foldlM (fun state item => (step state item).result) start := by
  induction items generalizing start with
  | nil => rfl
  | cons item items ih => simp only [List.foldlM_cons, result_bind, ih]

@[simp] theorem failsOnly_result_ofExcept_iff {result : Except ConversionError α} :
    FailsOnly sort (ofExcept result).result ↔ FailsOnly sort result := Iff.rfl

@[simp] theorem failsOnly_result_fail_iff {error : ConversionError} :
    FailsOnly sort (fail error : Outcome α).result ↔ sort error :=
  failsOnly_error_iff

@[simp] theorem failsOnly_result_tell (notice : Notice) :
    FailsOnly sort (tell notice).result :=
  failsOnly_ok ()

@[simp] theorem failsOnly_result_tellIf (condition : Bool) (notice : Notice) :
    FailsOnly sort (tellIf condition notice).result := by
  cases condition <;> exact failsOnly_ok ()

/-- Reports aside, two steps fail by errors of a sort if each does. -/
@[simp] theorem failsOnly_result_bind_iff
    {first : Outcome α}
    {next : α → Outcome β} :
    FailsOnly sort (first >>= next).result ↔
      FailsOnly sort first.result
        ∧ ∀ value, first.result = .ok value → FailsOnly sort (next value).result := by
  rw [result_bind, failsOnly_bind_iff]

@[simp] theorem failsOnly_result_mapM
    {action : α → Outcome β}
    {items : List α}
    (each : ∀ item ∈ items, FailsOnly sort (action item).result) :
    FailsOnly sort (items.mapM action).result := by
  rw [result_mapM]
  exact failsOnly_mapM each

@[simp] theorem failsOnly_result_foldlM
    {step : β → α → Outcome β}
    {items : List α}
    {start : β}
    (each : ∀ state, ∀ item ∈ items, FailsOnly sort (step state item).result) :
    FailsOnly sort (items.foldlM step start).result := by
  rw [result_foldlM]
  exact failsOnly_foldlM each

end Outcome
end GlyphLayout
