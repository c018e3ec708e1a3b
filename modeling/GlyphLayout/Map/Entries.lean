/-!
# Entries of a map

Finding the value of a key in a list of keys and values.
-/

namespace GlyphLayout
namespace Entries

universe u v

variable {κ : Type u} {ν : Type v} [DecidableEq κ]

/-- The value of the first entry with the given key. -/
def find? (key : κ) : List (κ × ν) → Option ν
  | [] => none
  | entry :: rest => if entry.1 = key then some entry.2 else find? key rest

theorem isSome_find?_iff (key : κ) (entries : List (κ × ν)) :
    (find? key entries).isSome = true ↔ key ∈ entries.map Prod.fst := by
  induction entries with
  | nil => simp [find?]
  | cons entry rest ih =>
      by_cases same : entry.1 = key
      · simp [find?, same]
      · simp [find?, same, ih, Ne.symm same]

theorem mem_of_find?
    {key : κ} {value : ν} {entries : List (κ × ν)}
    (found : find? key entries = some value) :
    (key, value) ∈ entries := by
  induction entries with
  | nil => simp [find?] at found
  | cons entry rest ih =>
      unfold find? at found
      split at found
      · rename_i same
        cases found
        exact List.mem_cons.mpr (.inl (Prod.ext same.symm rfl))
      · exact List.mem_cons_of_mem _ (ih found)

end Entries
end GlyphLayout
