import GlyphLayout.Identifier
import Mathlib.Data.List.Basic

/-!
# Identifiers stay apart

A pool only grows: a name keeps its identifier, and no two names ever share one.  So the
identifiers of a pool rename the names that it knows, without merging any two of them.
-/

namespace GlyphLayout

/-- An identifier never gets shorter when it is made free. -/
theorem length_le_length_firstFree (taken : List String) (candidate : String) :
    candidate.length ≤ (firstFree taken candidate).length := by
  induction taken, candidate using firstFree.induct with
  | case1 taken candidate member ih =>
      rw [firstFree, if_pos member]
      rw [String.length_append] at ih
      omega
  | case2 taken candidate free =>
      have same : firstFree taken candidate = candidate := by rw [firstFree, if_neg free]
      exact Nat.le_of_eq (congrArg String.length same.symm)

/-- What is chosen is free. -/
theorem firstFree_not_mem (taken : List String) (candidate : String) :
    firstFree taken candidate ∉ taken := by
  induction taken, candidate using firstFree.induct with
  | case1 taken candidate member ih =>
      rw [firstFree, if_pos member]
      have longer := length_le_length_firstFree (taken.erase candidate) (candidate ++ "_")
      have different : firstFree (taken.erase candidate) (candidate ++ "_") ≠ candidate := by
        intro same
        rw [same, String.length_append] at longer
        have positive : "_".length = 1 := rfl
        omega
      intro inside
      exact ih ((List.mem_erase_of_ne different).mpr inside)
  | case2 taken candidate free =>
      rw [firstFree, if_neg free]
      exact free

theorem OrderedMap.mem_values_of_get?
    {κ ν : Type} [DecidableEq κ]
    {map : OrderedMap κ ν} {key : κ} {value : ν}
    (found : map.get? key = some value) :
    value ∈ map.values :=
  List.mem_map.mpr ⟨(key, value), Entries.mem_of_find? found, rfl⟩

namespace IdentifierPool

variable {pool next last : IdentifierPool} {name other : String}

/-- The identifier of a name, and nothing for a name that has none. -/
def identifierOf (pool : IdentifierPool) (name : String) : String :=
  pool.assigned.getD name ""

/-- The name has an identifier. -/
def Knows (pool : IdentifierPool) (name : String) : Prop :=
  (pool.assigned.get? name).isSome

/-- Every name keeps its identifier in the later pool. -/
def Grows (pool next : IdentifierPool) : Prop :=
  ∀ name identifier, pool.assigned.get? name = some identifier →
    next.assigned.get? name = some identifier

/-- Different names have different identifiers. -/
def Distinct (pool : IdentifierPool) : Prop :=
  ∀ first second identifier, pool.assigned.get? first = some identifier →
    pool.assigned.get? second = some identifier → first = second

theorem Grows.refl (pool : IdentifierPool) : pool.Grows pool :=
  fun _ _ found => found

/-- A pool that grows twice has grown. -/
theorem Grows.trans
    (earlier : pool.Grows next)
    (later : next.Grows last) :
    pool.Grows last :=
  fun name identifier found => later name identifier (earlier name identifier found)

/-- A name that is known has an identifier. -/
theorem get?_of_knows (known : pool.Knows name) :
    pool.assigned.get? name = some (pool.identifierOf name) := by
  obtain ⟨identifier, found⟩ := Option.isSome_iff_exists.mp known
  simp [identifierOf, OrderedMap.getD, found]

theorem Knows.mono (known : pool.Knows name) (grows : pool.Grows next) : next.Knows name :=
  Option.isSome_iff_exists.mpr ⟨_, grows _ _ (get?_of_knows known)⟩

/-- A known name keeps its identifier. -/
theorem identifierOf_of_grows (grows : pool.Grows next) (known : pool.Knows name) :
    next.identifierOf name = pool.identifierOf name := by
  have found := grows _ _ (get?_of_knows known)
  simp [identifierOf, OrderedMap.getD, found]

/-- Known names with one identifier are one name. -/
theorem Distinct.eq_of_identifierOf_eq
    (distinct : pool.Distinct)
    (known : pool.Knows name)
    (otherKnown : pool.Knows other)
    (same : pool.identifierOf name = pool.identifierOf other) :
    name = other := by
  refine distinct name other (pool.identifierOf name) (get?_of_knows known) ?_
  rw [same]
  exact get?_of_knows otherKnown

theorem distinct_empty (kind : IdentifierKind) : (⟨kind, ∅⟩ : IdentifierPool).Distinct := by
  intro first second identifier found
  rw [OrderedMap.get?_empty] at found
  cases found

/-- To identify a name changes no identifier that was given before. -/
theorem grows_identify (pool : IdentifierPool) (name : String) :
    pool.Grows (pool.identify name).2 := by
  intro other identifier found
  unfold identify
  split
  · exact found
  · rename_i unknown
    rw [OrderedMap.get?_insert]
    split
    · rename_i same
      rw [same, unknown] at found
      cases found
    · exact found

theorem get?_identify (pool : IdentifierPool) (name : String) :
    (pool.identify name).2.assigned.get? name = some (pool.identify name).1 := by
  unfold identify
  split
  · assumption
  · rw [OrderedMap.get?_insert, if_pos rfl]

theorem knows_identify (pool : IdentifierPool) (name : String) :
    (pool.identify name).2.Knows name :=
  Option.isSome_iff_exists.mpr ⟨_, get?_identify pool name⟩

/-- The identifier that is given is the one that the pool has from then on. -/
theorem identify_fst (pool : IdentifierPool) (name : String) :
    (pool.identify name).1 = (pool.identify name).2.identifierOf name := by
  simp [identifierOf, OrderedMap.getD, get?_identify]

/-- A new name gets an identifier that no other name has. -/
theorem Distinct.identify (distinct : pool.Distinct) (name : String) :
    (pool.identify name).2.Distinct := by
  intro first second identifier foundFirst foundSecond
  unfold IdentifierPool.identify at foundFirst foundSecond
  split at foundFirst
  · rename_i known
    rw [known] at foundSecond
    exact distinct first second identifier foundFirst foundSecond
  · rename_i unknown
    simp only [unknown, OrderedMap.get?_insert] at foundFirst foundSecond
    have free (other : String) (found : pool.assigned.get? other =
        some (firstFree pool.assigned.values (String.ofList (pool.kind.spell name.toList)))) :
        False :=
      firstFree_not_mem _ _ (OrderedMap.mem_values_of_get? found)
    split at foundFirst
    · cases foundFirst
      split at foundSecond
      · rename_i sameFirst sameSecond
        rw [sameFirst, sameSecond]
      · exact (free second foundSecond).elim
    · split at foundSecond
      · cases foundSecond
        exact (free first foundFirst).elim
      · exact distinct first second identifier foundFirst foundSecond

end IdentifierPool
end GlyphLayout
