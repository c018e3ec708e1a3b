import GlyphLayout.Proofs.Failures

/-!
# Comparing runs

Two runs of a conversion may be compared in more than one way: they may come to the same value, or
be the same unless an error of some sort stops the first one.  Under each of these, steps that are
the same make runs that are the same.
-/

namespace GlyphLayout

variable {α β γ δ : Type}

/-- A way to compare results and runs that respects taking one step after another. -/
structure Comparison where
  Same : ∀ {α : Type}, Except ConversionError α → Except ConversionError α → Prop
  SameRun : ∀ {α : Type}, Outcome α → Outcome α → Prop
  same_refl : ∀ {α : Type} (result : Except ConversionError α), Same result result
  /-- The second value may be made from the first one. -/
  same_bind_map : ∀ {α β γ : Type} {first : Except ConversionError α}
    {second : Except ConversionError γ} {change : α → γ}
    {firstNext : α → Except ConversionError β} {secondNext : γ → Except ConversionError β},
    Same (change <$> first) second →
      (∀ value, Same (firstNext value) (secondNext (change value))) →
      Same (first >>= firstNext) (second >>= secondNext)
  sameRun_refl : ∀ {α : Type} (outcome : Outcome α), SameRun outcome outcome
  sameRun_bind_map : ∀ {α β γ : Type} {first : Outcome α} {second : Outcome γ} {change : α → γ}
    {firstNext : α → Outcome β} {secondNext : γ → Outcome β},
    SameRun (change <$> first) second →
      (∀ value, SameRun (firstNext value) (secondNext (change value))) →
      SameRun (first >>= firstNext) (second >>= secondNext)
  /-- Results that are the same make runs without notices that are. -/
  sameRun_lift : ∀ {α : Type} {first second : Except ConversionError α},
    Same first second → SameRun (liftM first) (liftM second)

namespace Comparison

variable {comparison : Comparison}

namespace Same

theorem refl (result : Except ConversionError α) : comparison.Same result result :=
  comparison.same_refl result

theorem bind_map
    {first : Except ConversionError α}
    {second : Except ConversionError γ}
    {change : α → γ}
    {firstNext : α → Except ConversionError β}
    {secondNext : γ → Except ConversionError β}
    (head : comparison.Same (change <$> first) second)
    (next : ∀ value, comparison.Same (firstNext value) (secondNext (change value))) :
    comparison.Same (first >>= firstNext) (second >>= secondNext) :=
  comparison.same_bind_map head next

/-- Two steps are the same if both are, the second after any value of the first. -/
theorem bind
    {first second : Except ConversionError α}
    {firstNext secondNext : α → Except ConversionError β}
    (head : comparison.Same first second)
    (next : ∀ value, comparison.Same (firstNext value) (secondNext value)) :
    comparison.Same (first >>= firstNext) (second >>= secondNext) := by
  have mapped : comparison.Same (id <$> first) second := by rwa [id_map]
  exact mapped.bind_map next

/-- Steps with changed values make a traversal with changed values. -/
theorem map_mapM
    {action : α → Except ConversionError β}
    {again : α → Except ConversionError γ}
    {change : β → γ}
    (each : ∀ item, comparison.Same (change <$> action item) (again item))
    (items : List α) :
    comparison.Same (List.map change <$> items.mapM action) (items.mapM again) := by
  induction items with
  | nil => exact refl _
  | cons item items ih =>
      rw [List.mapM_cons, List.mapM_cons, map_bind]
      refine (each item).bind_map fun value => ?_
      rw [map_bind]
      exact ih.bind_map fun values => refl _

/-- Steps that are the same for each item are the same for a list. -/
theorem mapM
    {action again : α → Except ConversionError β}
    (each : ∀ item, comparison.Same (action item) (again item))
    (items : List α) :
    comparison.Same (items.mapM action) (items.mapM again) := by
  have mapped : comparison.Same (List.map id <$> items.mapM action) (items.mapM again) :=
    map_mapM (fun item => by rw [id_map]; exact each item) items
  rwa [List.map_id_fun, id_map] at mapped

theorem mapM_map
    {action : α → Except ConversionError β}
    {again : γ → Except ConversionError β}
    {change : α → γ}
    (each : ∀ item, comparison.Same (action item) (again (change item)))
    (items : List α) :
    comparison.Same (items.mapM action) ((items.map change).mapM again) := by
  rw [List.mapM_map]
  exact mapM each items

theorem lift_map
    {first : Except ConversionError α}
    {second : Except ConversionError β}
    {change : α → β}
    (same : comparison.Same (change <$> first) second) :
    comparison.SameRun (change <$> (liftM first : Outcome α)) (liftM second) := by
  rw [← Outcome.liftM_map]
  exact comparison.sameRun_lift same

/-- What is the same as a result is the same as a run that reports nothing. -/
theorem lift
    {first second : Except ConversionError α}
    (same : comparison.Same first second) :
    comparison.SameRun (liftM first) (liftM second) :=
  comparison.sameRun_lift same

end Same

namespace SameRun

theorem refl (outcome : Outcome α) : comparison.SameRun outcome outcome :=
  comparison.sameRun_refl outcome

theorem bind_map
    {first : Outcome α}
    {second : Outcome γ}
    {change : α → γ}
    {firstNext : α → Outcome β}
    {secondNext : γ → Outcome β}
    (head : comparison.SameRun (change <$> first) second)
    (next : ∀ value, comparison.SameRun (firstNext value) (secondNext (change value))) :
    comparison.SameRun (first >>= firstNext) (second >>= secondNext) :=
  comparison.sameRun_bind_map head next

/-- Two runs after each other are the same if both are. -/
theorem bind
    {first second : Outcome α}
    {firstNext secondNext : α → Outcome β}
    (head : comparison.SameRun first second)
    (next : ∀ value, comparison.SameRun (firstNext value) (secondNext value)) :
    comparison.SameRun (first >>= firstNext) (second >>= secondNext) := by
  have mapped : comparison.SameRun (id <$> first) second := by rwa [id_map]
  exact mapped.bind_map next

/-- The items of the second run may be made from those of the first. -/
theorem mapM_map
    {action : α → Outcome β}
    {again : γ → Outcome β}
    {change : α → γ}
    (each : ∀ item, comparison.SameRun (action item) (again (change item)))
    (items : List α) :
    comparison.SameRun (items.mapM action) ((items.map change).mapM again) := by
  induction items with
  | nil => exact refl _
  | cons item items ih =>
      rw [List.map_cons, List.mapM_cons, List.mapM_cons]
      exact (each item).bind fun value => ih.bind fun values => refl _

theorem mapM
    {action again : α → Outcome β}
    (each : ∀ item, comparison.SameRun (action item) (again item))
    (items : List α) :
    comparison.SameRun (items.mapM action) (items.mapM again) := by
  have mapped : comparison.SameRun (items.mapM action) ((items.map id).mapM again) :=
    mapM_map each items
  rwa [List.map_id] at mapped

/-- Steps for changed items, from a changed state, lead to a changed state. -/
theorem map_foldlM_map
    {step : β → α → Outcome β}
    {again : δ → γ → Outcome δ}
    {change : α → γ}
    {made : β → δ}
    (each : ∀ state item,
      comparison.SameRun (made <$> step state item) (again (made state) (change item)))
    (items : List α)
    (start : β) :
    comparison.SameRun (made <$> items.foldlM step start)
      ((items.map change).foldlM again (made start)) := by
  induction items generalizing start with
  | nil => exact refl _
  | cons item items ih =>
      rw [List.map_cons, List.foldlM_cons, List.foldlM_cons, map_bind]
      exact (each start item).bind_map ih

theorem foldlM_map
    {step : β → α → Outcome β}
    {again : β → γ → Outcome β}
    {change : α → γ}
    (each : ∀ state item, comparison.SameRun (step state item) (again state (change item)))
    (items : List α)
    (start : β) :
    comparison.SameRun (items.foldlM step start) ((items.map change).foldlM again start) := by
  have mapped : comparison.SameRun (id <$> items.foldlM step start)
      ((items.map change).foldlM again (id start)) :=
    map_foldlM_map (fun state item => by rw [id_map]; exact each state item) items start
  rwa [id_map] at mapped

/-- Runs that are the same in every state are the same in a row. -/
theorem foldlM
    {step again : β → α → Outcome β}
    (each : ∀ state item, comparison.SameRun (step state item) (again state item))
    (items : List α)
    (start : β) :
    comparison.SameRun (items.foldlM step start) (items.foldlM again start) := by
  have mapped : comparison.SameRun (items.foldlM step start)
      ((items.map id).foldlM again start) :=
    foldlM_map each items start
  rwa [List.map_id] at mapped

end SameRun
end Comparison
end GlyphLayout
