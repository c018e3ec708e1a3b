import GlyphLayout.Proofs.Comparison

/-!
# Runs that are the same unless one is stopped

Two runs of a conversion are compared up to errors of one sort: unless such an error stops the
first run, the second one gives the same notices and comes to the same end.  Steps that are
compared in this way make runs that are.
-/

namespace GlyphLayout

variable {α β γ : Type} {stops : ConversionError → Bool}

/-- No error of the given sort is the result. -/
def NotStopped (stops : ConversionError → Bool) (result : Except ConversionError α) : Prop :=
  ∀ error, result = .error error → stops error = false

theorem notStopped_ok (value : α) : NotStopped stops (.ok value) :=
  failsOnly_ok value

theorem notStopped_error_iff {error : ConversionError} :
    NotStopped stops (.error error : Except ConversionError α) ↔ stops error = false :=
  failsOnly_error_iff

/-- The second result is the first one, unless an error of the given sort is the first. -/
structure SameUnless (stops : ConversionError → Bool)
    (first second : Except ConversionError α) : Prop where
  eq_of_notStopped : NotStopped stops first → second = first

/-- Whatever comes second, nothing is said if the first result is stopped. -/
theorem SameUnless.of_stops
    {error : ConversionError}
    (stopped : stops error = true)
    (second : Except ConversionError α) :
    SameUnless stops (.error error) second :=
  ⟨fun free => absurd (notStopped_error_iff.mp free) (by simp [stopped])⟩

theorem SameUnless.bind_map
    {first : Except ConversionError α}
    {second : Except ConversionError γ}
    {change : α → γ}
    {firstNext : α → Except ConversionError β}
    {secondNext : γ → Except ConversionError β}
    (head : SameUnless stops (change <$> first) second)
    (next : ∀ value, SameUnless stops (firstNext value) (secondNext (change value))) :
    SameUnless stops (first >>= firstNext) (second >>= secondNext) := by
  refine ⟨fun free => ?_⟩
  cases first with
  | error error =>
      rw [head.eq_of_notStopped (notStopped_error_iff.mpr (notStopped_error_iff.mp free))]
      rfl
  | ok value =>
      rw [head.eq_of_notStopped (notStopped_ok (change value))]
      exact (next value).eq_of_notStopped free

namespace Outcome

/-- The second run is the first one, unless an error of the given sort stops the first. -/
structure SameUnless (stops : ConversionError → Bool) (first second : Outcome α) : Prop where
  eq_of_notStopped : NotStopped stops first.result → second = first

/--
One step after the other, where the state of the second run is made from that of the first.
What comes next is compared only for the state that the first step has come to.
-/
theorem SameUnless.bind_map
    {first : Outcome α}
    {second : Outcome γ}
    {change : α → γ}
    {firstNext : α → Outcome β}
    {secondNext : γ → Outcome β}
    (head : SameUnless stops (change <$> first) second)
    (next : ∀ value, first.result = .ok value →
      SameUnless stops (firstNext value) (secondNext (change value))) :
    SameUnless stops (first >>= firstNext) (second >>= secondNext) := by
  refine ⟨fun free => ?_⟩
  obtain ⟨log, error | value⟩ := first
  · rw [head.eq_of_notStopped (notStopped_error_iff.mpr (notStopped_error_iff.mp free))]
    rfl
  · rw [head.eq_of_notStopped (notStopped_ok (change value)), bind_map_left, bind_ok, bind_ok,
      (next value rfl).eq_of_notStopped free]

end Outcome

/-- The comparison up to errors of one sort. -/
def Comparison.unless (stops : ConversionError → Bool) : Comparison where
  Same := SameUnless stops
  SameRun := Outcome.SameUnless stops
  same_refl _ := ⟨fun _ => rfl⟩
  same_bind_map := SameUnless.bind_map
  sameRun_refl _ := ⟨fun _ => rfl⟩
  sameRun_bind_map head next := head.bind_map fun value _ => next value
  sameRun_lift same := ⟨fun free => congrArg Outcome.ofExcept (same.eq_of_notStopped free)⟩

end GlyphLayout
