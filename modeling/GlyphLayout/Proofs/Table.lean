import GlyphLayout.Proofs.Reference
import Mathlib.Data.List.Perm.Subperm

/-!
# Tables of lookups

Compiled lookups are entered into a table one after the other, each under its own key.  As
long as the keys differ, the table lists exactly what has been entered; a key that comes up
again costs the table the lookup that was entered first.
-/

namespace GlyphLayout

namespace OrderedMap

variable {κ ν : Type} [DecidableEq κ]

/-- A new key comes last. -/
theorem put_of_not_mem
    {key : κ}
    (value : ν)
    {entries : List (κ × ν)}
    (fresh : key ∉ entries.map Prod.fst) :
    put key value entries = entries ++ [(key, value)] := by
  induction entries with
  | nil => rfl
  | cons entry rest ih =>
      simp only [List.map_cons, List.mem_cons, not_or] at fresh
      rw [put, if_neg (Ne.symm fresh.1), ih fresh.2]
      rfl

/-- A new key stands behind all others. -/
theorem entries_insert_of_not_mem
    (map : OrderedMap κ ν)
    {key : κ}
    (value : ν)
    (fresh : key ∉ map.keys) :
    (map.insert key value).entries = map.entries ++ [(key, value)] :=
  put_of_not_mem value fresh

/-- An entry brings its key and drops none. -/
theorem mem_keys_insert (map : OrderedMap κ ν) (key : κ) (value : ν) (other : κ) :
    other ∈ (map.insert key value).keys ↔ other ∈ map.keys ∨ other = key := by
  rw [keys_insert]
  split
  · rename_i present
    exact ⟨.inl, fun either => either.elim id fun same => same ▸ present⟩
  · simp

/-- What is in a table was put there, or had been there before. -/
theorem mem_put
    {key : κ}
    {value : ν}
    {entries : List (κ × ν)}
    {entry : κ × ν}
    (member : entry ∈ put key value entries) :
    entry = (key, value) ∨ entry ∈ entries := by
  induction entries with
  | nil => exact .inl (List.mem_singleton.mp member)
  | cons first rest ih =>
      unfold put at member
      split at member
      · rcases List.mem_cons.mp member with same | inside
        · exact .inl same
        · exact .inr (List.mem_cons_of_mem _ inside)
      · rcases List.mem_cons.mp member with same | inside
        · exact .inr (same ▸ List.mem_cons_self ..)
        · exact (ih inside).imp id (List.mem_cons_of_mem _)

/-- A value of a map is new or was there before. -/
theorem mem_values_insert
    {map : OrderedMap κ ν}
    {key : κ}
    {value other : ν}
    (member : other ∈ (map.insert key value).values) :
    other = value ∨ other ∈ map.values := by
  obtain ⟨entry, inside, rfl⟩ := List.mem_map.mp member
  rcases mem_put inside with rfl | before
  · exact .inl rfl
  · exact .inr (List.mem_map_of_mem before)

theorem entries_insert_empty (key : κ) (value : ν) :
    ((∅ : OrderedMap κ ν).insert key value).entries = [(key, value)] := rfl

/-- An entry is what its key is found to have. -/
theorem get?_of_mem
    {map : OrderedMap κ ν}
    {key : κ}
    {value : ν}
    (member : (key, value) ∈ map.entries) :
    map.get? key = some value := by
  obtain ⟨entries, nodup⟩ := map
  change Entries.find? key entries = some value
  induction entries with
  | nil => cases member
  | cons entry rest ih =>
      rw [List.map_cons, List.nodup_cons] at nodup
      rcases List.mem_cons.mp member with same | inside
      · rw [← same, Entries.find?, if_pos rfl]
      · have different : entry.1 ≠ key := fun same =>
          nodup.1 (same ▸ List.mem_map_of_mem inside)
        rw [Entries.find?, if_neg different]
        exact ih nodup.2 inside

theorem get?_eq_some_iff {map : OrderedMap κ ν} {key : κ} {value : ν} :
    map.get? key = some value ↔ (key, value) ∈ map.entries :=
  ⟨Entries.mem_of_find?, get?_of_mem⟩

/-! ## Maps with changed values -/

variable {μ : Type}

/-- An entry can be put in before or after all values are changed. -/
theorem put_map
    (change : ν → μ)
    (key : κ)
    (value : ν)
    (entries : List (κ × ν)) :
    put key (change value) (entries.map (Prod.map id change)) =
      (put key value entries).map (Prod.map id change) := by
  induction entries with
  | nil => rfl
  | cons entry rest ih =>
      simp only [List.map_cons, put, Prod.map_fst, id_eq]
      split
      · rfl
      · rw [ih]
        rfl

/-- The map with each of its values changed. -/
def map (change : ν → μ) (given : OrderedMap κ ν) : OrderedMap κ μ :=
  ⟨given.entries.map (Prod.map id change), by
    simpa [Function.comp_def] using given.nodup_keys⟩

theorem map_insert
    (change : ν → μ)
    (given : OrderedMap κ ν)
    (key : κ)
    (value : ν) :
    (given.insert key value).map change = (given.map change).insert key (change value) :=
  ext_entries (put_map change key value given.entries).symm

/-- A changed value is found under the same key. -/
theorem get?_map
    (change : ν → μ)
    (given : OrderedMap κ ν)
    (key : κ) :
    (given.map change).get? key = (given.get? key).map change := by
  change Entries.find? key (given.entries.map (Prod.map id change)) =
    (Entries.find? key given.entries).map change
  induction given.entries with
  | nil => rfl
  | cons entry rest ih =>
      simp only [List.map_cons, Entries.find?, Prod.map_fst, id_eq, ih]
      split <;> rfl

theorem contains_map
    (change : ν → μ)
    (given : OrderedMap κ ν)
    (key : κ) :
    (given.map change).contains key = given.contains key := by
  rw [contains, get?_map, Option.isSome_map, contains]

theorem getD_map
    (change : ν → μ)
    (given : OrderedMap κ ν)
    (key : κ)
    (default : ν) :
    (given.map change).getD key (change default) = change (given.getD key default) := by
  rw [getD, get?_map, Option.getD_map, getD]

end OrderedMap

namespace Compilation

variable {table : OrderedMap String CompiledLookup} {added more : List CompiledLookup}

/-- The table after some lookups have been entered, one after the other. -/
def enter (table : OrderedMap String CompiledLookup) (added : List CompiledLookup) :
    OrderedMap String CompiledLookup :=
  added.foldl (fun table lookup => table.insert lookup.key lookup) table

@[simp] theorem enter_nil : enter table [] = table := rfl

@[simp] theorem enter_cons (lookup : CompiledLookup) :
    enter table (lookup :: added) = enter (table.insert lookup.key lookup) added := rfl

/-- Lookups are entered one after the other. -/
theorem enter_append : enter table (added ++ more) = enter (enter table added) more :=
  List.foldl_append ..

/-- The keys are the old ones and those of the lookups entered. -/
theorem mem_keys_enter {key : String} :
    key ∈ (enter table added).keys ↔ key ∈ table.keys ∨ key ∈ added.map CompiledLookup.key := by
  induction added generalizing table with
  | nil => simp
  | cons lookup added ih =>
      rw [enter_cons, ih, OrderedMap.mem_keys_insert, List.map_cons, List.mem_cons, or_assoc]

/-- As long as the keys differ, nothing takes the place of anything. -/
theorem entries_enter (fresh : (table.keys ++ added.map CompiledLookup.key).Nodup) :
    (enter table added).entries =
      table.entries ++ added.map fun lookup => (lookup.key, lookup) := by
  induction added generalizing table with
  | nil => simp
  | cons lookup added ih =>
      have new : lookup.key ∉ table.keys := by
        intro present
        exact (List.nodup_append.mp fresh).2.2 _ present _ (List.mem_cons_self ..) rfl
      have later : ((table.insert lookup.key lookup).keys
          ++ added.map CompiledLookup.key).Nodup := by
        rw [OrderedMap.keys_insert, if_neg new]
        simpa using fresh
      rw [enter_cons, ih later, OrderedMap.entries_insert_of_not_mem table lookup new]
      simp

/-- What stands in the table was there before or has been entered under its own key. -/
theorem mem_entries_enter
    {entry : String × CompiledLookup}
    (member : entry ∈ (enter table added).entries) :
    entry ∈ table.entries ∨ (entry.2 ∈ added ∧ entry.1 = entry.2.key) := by
  induction added generalizing table with
  | nil => exact .inl member
  | cons lookup added ih =>
      rcases ih member with before | ⟨inside, own⟩
      · rcases OrderedMap.mem_put before with rfl | earlier
        · exact .inr ⟨List.mem_cons_self .., rfl⟩
        · exact .inl earlier
      · exact .inr ⟨List.mem_cons_of_mem _ inside, own⟩

theorem get?_enter_of_not_mem {key : String} (absent : key ∉ added.map CompiledLookup.key) :
    (enter table added).get? key = table.get? key := by
  induction added generalizing table with
  | nil => rfl
  | cons lookup added ih =>
      rw [List.map_cons, List.mem_cons, not_or] at absent
      rw [enter_cons, ih absent.2, OrderedMap.get?_insert, if_neg absent.1]

/-- What has been entered is found, unless its key has come up again. -/
theorem get?_enter_of_mem
    {lookup : CompiledLookup}
    (nodup : (added.map CompiledLookup.key).Nodup)
    (member : lookup ∈ added) :
    (enter table added).get? lookup.key = some lookup := by
  induction added generalizing table with
  | nil => cases member
  | cons first added ih =>
      rw [List.map_cons, List.nodup_cons] at nodup
      rw [enter_cons]
      rcases List.mem_cons.mp member with rfl | inside
      · rw [get?_enter_of_not_mem nodup.1, OrderedMap.get?_insert, if_pos rfl]
      · exact ih nodup.2 inside

/-- A table is as long as what has been entered into it exactly when no key came up twice. -/
theorem length_entries_enter_empty :
    (enter ∅ added).entries.length = added.length ↔
      (added.map CompiledLookup.key).Nodup := by
  constructor
  · intro same
    have inside : (enter ∅ added).keys ⊆ added.map CompiledLookup.key := fun key member =>
      (mem_keys_enter.mp member).resolve_left (by simp)
    have short : (added.map CompiledLookup.key).length ≤ (enter ∅ added).keys.length := by
      simp [OrderedMap.keys, same]
    have nodup := (enter ∅ added).keys_nodup
    exact ((nodup.subperm inside).perm_of_length_le short).nodup_iff.mp nodup
  · intro fresh
    rw [entries_enter (by simpa using fresh)]
    simp [OrderedMap.empty, EmptyCollection.emptyCollection]

/-- Nothing but what was entered is in the table. -/
theorem of_mem_values_enter_empty
    {lookup : CompiledLookup}
    (member : lookup ∈ (enter ∅ added).values) :
    lookup ∈ added := by
  obtain ⟨entry, inside, rfl⟩ := List.mem_map.mp member
  rcases mem_entries_enter inside with before | ⟨present, _⟩
  · cases before
  · exact present

/-- Lookups with different keys all stay, in order. -/
theorem values_enter_of_nodup
    (nodup : (added.map CompiledLookup.key).Nodup) :
    (enter ∅ added).values = added := by
  rw [OrderedMap.values, entries_enter (by simpa using nodup)]
  simp [OrderedMap.empty, EmptyCollection.emptyCollection, Function.comp_def]

end Compilation
end GlyphLayout
