import GlyphLayout.Map.Entries

/-!
# Maps in order of keys

A finite map that lists its keys in ascending order, so that the first key from a given one
on can be asked for.
-/

namespace GlyphLayout

universe u v

/-- Texts may be keys. -/
instance stringTrans :
    Trans (α := String) (β := String) (γ := String) (· < ·) (· < ·) (· < ·) :=
  ⟨String.lt_trans⟩

/-- A finite map whose keys ascend. -/
structure SortedMap (κ : Type u) (ν : Type v) [LT κ] where
  /-- The keys and their values, least key first. -/
  entries : List (κ × ν)
  /-- The keys ascend strictly. -/
  sorted : entries.Pairwise fun first second => first.1 < second.1

namespace SortedMap

variable {κ : Type u} {ν : Type v} [LT κ]

/-- The map without keys. -/
def empty : SortedMap κ ν :=
  ⟨[], List.Pairwise.nil⟩

instance : EmptyCollection (SortedMap κ ν) := ⟨empty⟩

instance : Inhabited (SortedMap κ ν) := ⟨empty⟩

/-- The value of a key. -/
def get? [DecidableEq κ] (map : SortedMap κ ν) (key : κ) : Option ν :=
  Entries.find? key map.entries

variable [DecidableLT κ]

/-- The first entry whose key is not below the given one. -/
def firstFrom? (map : SortedMap κ ν) (key : κ) : Option (κ × ν) :=
  map.entries.find? fun entry => !decide (entry.1 < key)

/-- Gives a key of an ascending list its value. -/
def put (key : κ) (value : ν) : List (κ × ν) → List (κ × ν)
  | [] => [(key, value)]
  | entry :: rest =>
      if key < entry.1 then (key, value) :: entry :: rest
      else if entry.1 < key then entry :: put key value rest
      else (entry.1, value) :: rest

theorem mem_put
    {key : κ} {value : ν} {entries : List (κ × ν)} {found : κ × ν}
    (member : found ∈ put key value entries) :
    found.1 = key ∨ found.1 ∈ entries.map Prod.fst := by
  induction entries with
  | nil => simp_all [put]
  | cons entry rest ih =>
      unfold put at member
      split at member
      · simp only [List.mem_cons] at member
        rcases member with rfl | rfl | inside
        · simp
        · simp
        · exact .inr (List.mem_map_of_mem (List.mem_cons_of_mem _ inside))
      · split at member
        · rcases List.mem_cons.mp member with rfl | inside
          · simp
          · rcases ih inside with same | deeper
            · exact .inl same
            · exact .inr (by simp only [List.map_cons, List.mem_cons, deeper, or_true])
        · rcases List.mem_cons.mp member with rfl | inside
          · simp
          · exact .inr (List.mem_map_of_mem (List.mem_cons_of_mem _ inside))

theorem sorted_put
    [trans : Trans (α := κ) (β := κ) (γ := κ) (· < ·) (· < ·) (· < ·)]
    (key : κ) (value : ν) {entries : List (κ × ν)}
    (sorted : entries.Pairwise fun first second => first.1 < second.1) :
    (put key value entries).Pairwise fun first second => first.1 < second.1 := by
  induction entries with
  | nil => simp [put]
  | cons entry rest ih =>
      have tail := List.pairwise_cons.mp sorted
      unfold put
      split
      · rename_i below
        refine List.pairwise_cons.mpr ⟨?_, sorted⟩
        intro other member
        rcases List.mem_cons.mp member with rfl | inside
        · exact below
        · exact trans.trans below (tail.1 other inside)
      · split
        · rename_i above
          refine List.pairwise_cons.mpr ⟨?_, ih tail.2⟩
          intro other member
          rcases mem_put member with same | inside
          · simpa [same] using above
          · obtain ⟨found, inRest, same⟩ := List.mem_map.mp inside
            exact same ▸ tail.1 found inRest
        · exact List.pairwise_cons.mpr ⟨tail.1, tail.2⟩

/-- Gives a key its value. -/
def insert
    [Trans (α := κ) (β := κ) (γ := κ) (· < ·) (· < ·) (· < ·)]
    (map : SortedMap κ ν) (key : κ) (value : ν) : SortedMap κ ν :=
  ⟨put key value map.entries, sorted_put key value map.sorted⟩

end SortedMap
end GlyphLayout
