import GlyphLayout.Map.Entries

/-!
# Maps in order of insertion

A finite map that lists its keys in the order in which they first came in.  Giving a key a
new value leaves the key where it stands.
-/

namespace GlyphLayout

universe u v

/-- A finite map that remembers the order in which its keys first came in. -/
structure OrderedMap (κ : Type u) (ν : Type v) where
  /-- The keys and their values, first key first. -/
  entries : List (κ × ν)
  /-- No key stands twice. -/
  nodup_keys : (entries.map Prod.fst).Nodup

namespace OrderedMap

variable {κ : Type u} {ν : Type v}

/-- The map without keys. -/
def empty : OrderedMap κ ν :=
  ⟨[], by simp⟩

instance : EmptyCollection (OrderedMap κ ν) := ⟨empty⟩

instance : Inhabited (OrderedMap κ ν) := ⟨empty⟩

/-- The keys, in order. -/
def keys (map : OrderedMap κ ν) : List κ :=
  map.entries.map Prod.fst

/-- The values, in the order of their keys. -/
def values (map : OrderedMap κ ν) : List ν :=
  map.entries.map Prod.snd

/-- The number of keys. -/
def size (map : OrderedMap κ ν) : Nat :=
  map.entries.length

@[simp] theorem keys_empty : (∅ : OrderedMap κ ν).keys = [] := rfl

/-- No key has two entries. -/
theorem keys_nodup (map : OrderedMap κ ν) : map.keys.Nodup :=
  map.nodup_keys

theorem ext_entries
    {first second : OrderedMap κ ν}
    (same : first.entries = second.entries) :
    first = second := by
  cases first
  cases second
  cases same
  rfl

variable [DecidableEq κ]

/-- The value of a key. -/
def get? (map : OrderedMap κ ν) (key : κ) : Option ν :=
  Entries.find? key map.entries

/-- The map has the key. -/
def contains (map : OrderedMap κ ν) (key : κ) : Bool :=
  (map.get? key).isSome

/-- Gives a key of a list of entries its value, in place if the key stands there already. -/
def put (key : κ) (value : ν) : List (κ × ν) → List (κ × ν)
  | [] => [(key, value)]
  | entry :: rest =>
      if entry.1 = key then (key, value) :: rest else entry :: put key value rest

theorem map_fst_put (key : κ) (value : ν) (entries : List (κ × ν)) :
    (put key value entries).map Prod.fst =
      if key ∈ entries.map Prod.fst then entries.map Prod.fst
      else entries.map Prod.fst ++ [key] := by
  induction entries with
  | nil => simp [put]
  | cons entry rest ih =>
      by_cases same : entry.1 = key
      · simp [put, same]
      · by_cases inside : key ∈ rest.map Prod.fst
        · simp [put, same, ih, inside]
        · simp [put, same, ih, inside, Ne.symm same]

/-- Gives a key its value.  A new key comes last; a key already there keeps its place. -/
def insert (map : OrderedMap κ ν) (key : κ) (value : ν) : OrderedMap κ ν :=
  ⟨put key value map.entries, by
    rw [map_fst_put]
    split
    · exact map.nodup_keys
    · rename_i fresh
      rw [List.nodup_append]
      refine ⟨map.nodup_keys, by simp, ?_⟩
      intro a member b last same
      rw [List.mem_singleton] at last
      subst last same
      exact fresh member⟩

/-- A known key stays where it is, and a new one comes last. -/
theorem keys_insert (map : OrderedMap κ ν) (key : κ) (value : ν) :
    (map.insert key value).keys = if key ∈ map.keys then map.keys else map.keys ++ [key] :=
  map_fst_put key value map.entries

theorem find?_put (key : κ) (value : ν) (entries : List (κ × ν)) (other : κ) :
    Entries.find? other (put key value entries) =
      if other = key then some value else Entries.find? other entries := by
  induction entries with
  | nil => simp [put, Entries.find?, eq_comm]
  | cons entry rest ih =>
      by_cases here : entry.1 = key
      · by_cases same : other = key
        · simp [put, here, Entries.find?, same]
        · simp [put, here, Entries.find?, same, Ne.symm same]
      · by_cases same : other = key
        · subst same
          simp [put, here, Entries.find?, ih]
        · simp [put, here, Entries.find?, ih, same]

@[simp] theorem get?_empty (key : κ) : (∅ : OrderedMap κ ν).get? key = none := rfl

/-- The value put in is found under its key, and under other keys what was there. -/
theorem get?_insert (map : OrderedMap κ ν) (key : κ) (value : ν) (other : κ) :
    (map.insert key value).get? other = if other = key then some value else map.get? other :=
  find?_put key value map.entries other

/-- The keys are those under which there is a value. -/
theorem contains_iff_mem_keys (map : OrderedMap κ ν) (key : κ) :
    map.contains key = true ↔ key ∈ map.keys :=
  Entries.isSome_find?_iff key map.entries

/-- The value of a key, or a default. -/
def getD (map : OrderedMap κ ν) (key : κ) (default : ν) : ν :=
  (map.get? key).getD default

end OrderedMap
end GlyphLayout
