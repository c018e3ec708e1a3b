import GlyphLayout.Outcome
import Mathlib.Data.List.Forall2

/-!
# Steps that come to a result

A step of a conversion that comes to a result is taken apart into the steps that it consists
of, each with its own notices and its own result.  The lemmas are equivalences, so they also
put a step together from its parts.
-/

namespace GlyphLayout

variable {α β ε : Type}

/-- One result after the other, if the first is not an error. -/
theorem except_bind_eq_ok_iff
    {first : Except ε α}
    {next : α → Except ε β}
    {value : β} :
    first >>= next = .ok value ↔ ∃ middle, first = .ok middle ∧ next middle = .ok value := by
  cases first with
  | error error => exact ⟨nofun, nofun⟩
  | ok middle =>
      constructor
      · intro result
        exact ⟨middle, rfl, result⟩
      · rintro ⟨_, same, result⟩
        cases same
        exact result

theorem except_eq_ok_of_toOption
    {result : Except ε α}
    {value : α}
    (found : result.toOption = some value) :
    result = .ok value := by
  cases result with
  | error error => cases found
  | ok other => rw [Option.some.inj found]

/-- A traversal with results has one for each item. -/
theorem except_mapM_eq_ok_iff
    {action : α → Except ε β}
    {items : List α}
    {values : List β} :
    items.mapM action = .ok values ↔
      List.Forall₂ (fun item value => action item = .ok value) items values := by
  induction items generalizing values with
  | nil =>
      simp only [List.mapM_nil, List.forall₂_nil_left_iff]
      exact ⟨fun result => (Except.ok.inj result).symm, fun empty => empty ▸ rfl⟩
  | cons item items ih =>
      simp only [List.mapM_cons, except_bind_eq_ok_iff, List.forall₂_cons_left_iff]
      constructor
      · rintro ⟨value, head, rest, tail, result⟩
        exact ⟨value, rest, head, ih.mp tail, (Except.ok.inj result).symm⟩
      · rintro ⟨value, rest, head, tail, rfl⟩
        exact ⟨value, head, rest, ih.mpr tail, rfl⟩

/-- What is true of each result of a traversal's step is true of each result of the traversal. -/
theorem forall_of_except_mapM
    {action : α → Except ε β}
    {items : List α}
    {values : List β}
    {property : β → Prop}
    (result : items.mapM action = .ok values)
    (step : ∀ item value, action item = .ok value → property value) :
    ∀ value ∈ values, property value := by
  have related := except_mapM_eq_ok_iff.mp result
  clear result
  induction related with
  | nil => exact fun _ member => (List.not_mem_nil member).elim
  | cons head _ ih =>
      intro value member
      rcases List.mem_cons.mp member with rfl | inside
      · exact step _ _ head
      · exact ih value inside

/-- Whatever stands in the second of two related lists is related to something in the first. -/
theorem exists_of_mem_right
    {related : α → β → Prop}
    {items : List α}
    {values : List β}
    {value : β}
    (pairwise : List.Forall₂ related items values)
    (member : value ∈ values) :
    ∃ item ∈ items, related item value := by
  induction pairwise with
  | nil => cases member
  | @cons item _ _ _ head _ ih =>
      rcases List.mem_cons.mp member with rfl | inside
      · exact ⟨item, List.mem_cons_self .., head⟩
      · obtain ⟨other, listed, found⟩ := ih inside
        exact ⟨other, List.mem_cons_of_mem _ listed, found⟩

/-- Whatever stands in the first of two related lists is related to something in the second. -/
theorem exists_of_mem_left
    {related : α → β → Prop}
    {items : List α}
    {values : List β}
    {item : α}
    (pairwise : List.Forall₂ related items values)
    (member : item ∈ items) :
    ∃ value ∈ values, related item value :=
  exists_of_mem_right pairwise.flip member

/-- Two views of related lists are equal if they are for each two related values. -/
theorem map_eq_map_of_forall₂
    {γ : Type}
    {related : α → β → Prop}
    {items : List α}
    {values : List β}
    {view : α → γ}
    {other : β → γ}
    (pairwise : List.Forall₂ related items values)
    (each : ∀ item value, related item value → view item = other value) :
    items.map view = values.map other := by
  induction pairwise with
  | nil => rfl
  | cons head _ ih => rw [List.map_cons, List.map_cons, each _ _ head, ih]

/-- Two lists stay related if what stands in the first may be used. -/
theorem forall₂_imp_of_mem
    {known related : α → β → Prop}
    {items : List α}
    {values : List β}
    (pairwise : List.Forall₂ known items values)
    (each : ∀ item ∈ items, ∀ value, known item value → related item value) :
    List.Forall₂ related items values := by
  induction pairwise with
  | nil => exact .nil
  | cons head _ ih =>
      obtain ⟨first, rest⟩ := List.forall_mem_cons.mp each
      exact .cons (first _ head) (ih rest)

/-- Two lists are related if they are related already and the condition on the first holds. -/
theorem forall₂_iff_forall_of_forall₂
    {known related : α → β → Prop}
    {condition : α → Prop}
    {items : List α}
    {values : List β}
    (pairwise : List.Forall₂ known items values)
    (each : ∀ item ∈ items, ∀ value, known item value → (related item value ↔ condition item)) :
    List.Forall₂ related items values ↔ ∀ item ∈ items, condition item := by
  induction pairwise with
  | nil => simp
  | cons head _ ih =>
      obtain ⟨first, rest⟩ := List.forall_mem_cons.mp each
      rw [List.forall₂_cons, List.forall_mem_cons, first _ head, ih rest]

/-- Each result of a traversal is the result of its step for one of the items. -/
theorem exists_of_mem_except_mapM
    {action : α → Except ε β}
    {items : List α}
    {values : List β}
    {value : β}
    (result : items.mapM action = .ok values)
    (member : value ∈ values) :
    ∃ item ∈ items, action item = .ok value := by
  have found := exists_of_mem_right (except_mapM_eq_ok_iff.mp result) member
  exact found

/-- A traversal whose step gives nothing but `make item` is a map. -/
theorem eq_map_of_except_mapM
    {action : α → Except ε β}
    {make : α → β}
    {items : List α}
    {values : List β}
    (result : items.mapM action = .ok values)
    (step : ∀ item value, action item = .ok value → value = make item) :
    values = items.map make := by
  have related := except_mapM_eq_ok_iff.mp result
  clear result
  induction related with
  | nil => rfl
  | cons head _ ih => rw [List.map_cons, ← ih, step _ _ head]

/-- A traversal has results if each of its steps has one. -/
theorem exists_except_mapM_of_forall
    {action : α → Except ε β}
    {items : List α}
    (each : ∀ item ∈ items, ∃ value, action item = .ok value) :
    ∃ values, items.mapM action = .ok values := by
  induction items with
  | nil => exact ⟨[], rfl⟩
  | cons item items ih =>
      obtain ⟨⟨value, head⟩, rest⟩ := List.forall_mem_cons.mp each
      obtain ⟨values, tail⟩ := ih rest
      exact ⟨value :: values, by rw [List.mapM_cons, head, tail]; rfl⟩

/-- A traversal has results exactly if each of its steps has one. -/
theorem exists_except_mapM_iff
    {action : α → Except ε β}
    {items : List α} :
    (∃ values, items.mapM action = .ok values) ↔
      ∀ item ∈ items, ∃ value, action item = .ok value := by
  constructor
  · rintro ⟨values, result⟩ item member
    obtain ⟨value, _, found⟩ := exists_of_mem_left (except_mapM_eq_ok_iff.mp result) member
    exact ⟨value, found⟩
  · exact exists_except_mapM_of_forall

namespace Outcome

@[simp] theorem liftM_eq_ofExcept (result : Except ConversionError α) :
    (liftM result : Outcome α) = ofExcept result := rfl

theorem liftM_map (change : α → β) (result : Except ConversionError α) :
    (liftM (change <$> result) : Outcome β) = change <$> (liftM result : Outcome α) := by
  cases result <;> rfl

@[simp] theorem ofExcept_eq_ok_iff
    {result : Except ConversionError α}
    {log : List Notice}
    {value : α} :
    ofExcept result = ⟨log, .ok value⟩ ↔ log = [] ∧ result = .ok value := by
  simp [ofExcept, eq_comm]

@[simp] theorem ofExcept_ok_bind (value : α) (next : α → Outcome β) :
    ofExcept (.ok value) >>= next = next value := rfl

theorem exists_of_isOk {outcome : Outcome α} (ok : outcome.result.isOk) :
    ∃ log value, outcome = ⟨log, .ok value⟩ := by
  obtain ⟨log, error | value⟩ := outcome
  · cases ok
  · exact ⟨log, value, rfl⟩

@[simp] theorem fail_ne_ok {error : ConversionError} {log : List Notice} {value : α} :
    (fail error : Outcome α) ≠ ⟨log, .ok value⟩ := by
  simp [fail]

/-- One step after the other comes to a result when both do; the notices stand in a row. -/
theorem bind_eq_ok_iff
    {first : Outcome α}
    {next : α → Outcome β}
    {log : List Notice}
    {value : β} :
    first >>= next = ⟨log, .ok value⟩ ↔
      ∃ before middle after,
        first = ⟨before, .ok middle⟩ ∧ next middle = ⟨after, .ok value⟩
          ∧ log = before ++ after := by
  obtain ⟨before, error | middle⟩ := first
  · simp
  · rw [bind_ok]
    constructor
    · intro same
      injection same with logs result
      refine ⟨before, middle, (next middle).log, rfl, ?_, logs.symm⟩
      rw [← result]
    · rintro ⟨_, _, after, same, result, rfl⟩
      cases same
      rw [result]

/-- A step that starts with a result without notices. -/
theorem liftM_bind_eq_ok_iff
    {first : Except ConversionError α}
    {next : α → Outcome β}
    {log : List Notice}
    {value : β} :
    (liftM first : Outcome α) >>= next = ⟨log, .ok value⟩ ↔
      ∃ middle, first = .ok middle ∧ next middle = ⟨log, .ok value⟩ := by
  rw [liftM_eq_ofExcept]
  cases first with
  | error error => simp [ofExcept]
  | ok middle => simp

/-- A notice that may be given is no obstacle. -/
theorem tellIf_eq_ok (condition : Bool) (notice : Notice) :
    tellIf condition notice = ⟨if condition then [notice] else [], .ok ()⟩ := by
  cases condition <;> rfl

/-- A traversal comes to results if each step comes to its own. -/
theorem exists_mapM_eq_ok_iff
    {action : α → Outcome β}
    {items : List α}
    {values : List β} :
    (∃ log, items.mapM action = ⟨log, .ok values⟩) ↔
      List.Forall₂ (fun item value => ∃ part, action item = ⟨part, .ok value⟩) items values := by
  induction items generalizing values with
  | nil =>
      rw [List.forall₂_nil_left_iff, List.mapM_nil]
      constructor
      · rintro ⟨_, result⟩
        cases result
        rfl
      · rintro rfl
        exact ⟨[], rfl⟩
  | cons item items ih =>
      rw [List.forall₂_cons_left_iff, List.mapM_cons]
      constructor
      · rintro ⟨_, result⟩
        obtain ⟨part, value, _, head, result, _⟩ := bind_eq_ok_iff.mp result
        obtain ⟨later, rest, _, tail, result, _⟩ := bind_eq_ok_iff.mp result
        cases result
        exact ⟨value, rest, ⟨part, head⟩, ih.mp ⟨later, tail⟩, rfl⟩
      · rintro ⟨value, rest, ⟨part, head⟩, tail, rfl⟩
        obtain ⟨later, tail⟩ := ih.mpr tail
        refine ⟨part ++ later, bind_eq_ok_iff.mpr ⟨part, value, later, head, ?_, rfl⟩⟩
        exact bind_eq_ok_iff.mpr ⟨later, rest, [], tail, rfl, (List.append_nil later).symm⟩

/-- Each result of a traversal is the result of its step for one of the items. -/
theorem exists_of_mem_mapM
    {action : α → Outcome β}
    {items : List α}
    {log : List Notice}
    {values : List β}
    {value : β}
    (result : items.mapM action = ⟨log, .ok values⟩)
    (member : value ∈ values) :
    ∃ item ∈ items, ∃ part, action item = ⟨part, .ok value⟩ := by
  have found := exists_of_mem_right (exists_mapM_eq_ok_iff.mp ⟨log, result⟩) member
  exact found

/-- What is true of each result of a traversal's step is true of each result of the traversal. -/
theorem forall_of_mapM
    {action : α → Outcome β}
    {items : List α}
    {log : List Notice}
    {values : List β}
    {property : β → Prop}
    (result : items.mapM action = ⟨log, .ok values⟩)
    (step : ∀ item part value, action item = ⟨part, .ok value⟩ → property value) :
    ∀ value ∈ values, property value := by
  intro value member
  obtain ⟨item, _, part, found⟩ := exists_of_mem_mapM result member
  exact step item part value found

/--
Two traversals in parallel: if each step of the second has a result where the first has one,
and both results are made from one item, then so do the traversals.
-/
theorem mapM_parallel
    {γ δ : Type}
    {action : α → Outcome β}
    {again : α → Outcome γ}
    (first : δ → β)
    (second : δ → γ)
    (property : δ → Prop)
    {items : List α}
    {log : List Notice}
    {values : List β}
    (result : items.mapM action = ⟨log, .ok values⟩)
    (step : ∀ item part value, action item = ⟨part, .ok value⟩ →
      ∃ later common, again item = ⟨later, .ok (second common)⟩ ∧ value = first common
        ∧ property common) :
    ∃ (later : List Notice) (common : List δ),
      items.mapM again = ⟨later, .ok (common.map second)⟩
        ∧ values = common.map first ∧ ∀ item ∈ common, property item := by
  induction items generalizing log values with
  | nil =>
      cases result
      exact ⟨[], [], rfl, rfl, by simp⟩
  | cons item items ih =>
      rw [List.mapM_cons] at result
      obtain ⟨_, value, _, head, rest, _⟩ := bind_eq_ok_iff.mp result
      obtain ⟨_, others, _, tail, same, _⟩ := bind_eq_ok_iff.mp rest
      cases same
      obtain ⟨before, common, headAgain, rfl, holds⟩ := step item _ value head
      obtain ⟨after, commons, tailAgain, rfl, allHold⟩ := ih tail
      refine ⟨before ++ after, common :: commons, ?_, rfl,
        List.forall_mem_cons.mpr ⟨holds, allHold⟩⟩
      rw [List.mapM_cons]
      refine bind_eq_ok_iff.mpr ⟨before, _, after, headAgain, ?_, rfl⟩
      exact bind_eq_ok_iff.mpr ⟨after, _, [], tailAgain, rfl, (List.append_nil after).symm⟩

/-- A traversal has results if each step has one where the other traversal has one. -/
theorem mapM_of_mapM
    {γ : Type}
    {action : α → Outcome β}
    (again : α → Outcome γ)
    {items : List α}
    {log : List Notice}
    {values : List β}
    (result : items.mapM action = ⟨log, .ok values⟩)
    (step : ∀ item part value, action item = ⟨part, .ok value⟩ →
      ∃ later other, again item = ⟨later, .ok other⟩) :
    ∃ later others, items.mapM again = ⟨later, .ok others⟩ := by
  obtain ⟨later, common, traversed, _⟩ := mapM_parallel
    (Prod.fst : β × γ → β) Prod.snd (fun _ => True) result fun item part value head => by
      obtain ⟨later, other, headAgain⟩ := step item part value head
      exact ⟨later, (value, other), headAgain, rfl, trivial⟩
  exact ⟨later, _, traversed⟩

end Outcome
end GlyphLayout
