import GlyphLayout.Lookup.Partition
import Mathlib.Algebra.Ring.Nat

/-!
# Sizes of pieces

A list is cut into pieces that are not empty and that keep to the limit: the sizes of a piece add
up to no more, or the last item alone goes beyond it.  Such an item has nothing in front of it but
items of no size, since nothing is cut off as long as the sizes add up to zero.
-/

namespace GlyphLayout

variable {α : Type}

/-- Some sizes add up to the limit at most, or all of them but the last are zero: a size that stands
alone keeps to every limit. -/
def KeepsLimit (limit : Nat) (sizes : List Nat) : Prop :=
  sizes.sum ≤ limit ∨ ∀ size ∈ sizes.dropLast, size = 0

theorem keepsLimit_singleton (limit size : Nat) : KeepsLimit limit [size] :=
  .inr nofun

/-- One more item that is no reason to cut. -/
theorem keepsLimit_snoc
    {limit size : Nat}
    {sizes : List Nat}
    (stays : ¬(0 < sizes.sum ∧ limit < sizes.sum + size)) :
    KeepsLimit limit (sizes ++ [size]) := by
  by_cases empty : sizes.sum = 0
  · refine .inr ?_
    rw [List.dropLast_concat]
    exact List.sum_eq_zero_iff_forall_eq_nat.mp empty
  · refine .inl ?_
    rw [List.sum_append, List.sum_singleton]
    omega

/-! ## What holds of every piece -/

section

variable
  {size : α → Nat} {limit total : Nat} {current items : List α} (holds : List α → Prop)

theorem forall_mem_partitionFrom
    (counted : total = (current.reverse.map size).sum)
    (begun : current ≠ [] → holds current.reverse)
    (single : ∀ item ∈ items, holds [item])
    (longer : ∀ piece, ∀ item ∈ items, holds piece →
      ¬(0 < (piece.map size).sum ∧ limit < (piece.map size).sum + size item) →
        holds (piece ++ [item])) :
    ∀ piece ∈ partitionFrom size limit current total items, holds piece := by
  induction items generalizing current total with
  | nil =>
      unfold partitionFrom
      split
      · simp
      · rename_i pending
        exact List.forall_mem_singleton.mpr (begun fun none => pending (by simp [none]))
  | cons item items ih =>
      obtain ⟨alone, others⟩ := List.forall_mem_cons.mp single
      have rest := fun piece other inside => longer piece other (List.mem_cons_of_mem item inside)
      unfold partitionFrom
      split
      · rename_i full
        have filled : current ≠ [] := by
          rintro rfl
          simp [counted] at full
        exact List.forall_mem_cons.mpr ⟨begun filled, ih (by simp) (fun _ => alone) others rest⟩
      · rename_i stays
        refine ih (by simp [counted]) (fun _ => ?_) others rest
        rw [List.reverse_cons]
        by_cases none : current = []
        · rwa [none]
        · exact longer _ item (.head _) (begun none) (counted ▸ stays)

/-- What holds of a single item, and still holds when an item joins a piece, holds of every
piece. -/
theorem forall_mem_partition
    (single : ∀ item ∈ items, holds [item])
    (longer : ∀ piece, ∀ item ∈ items, holds piece →
      ¬(0 < (piece.map size).sum ∧ limit < (piece.map size).sum + size item) →
        holds (piece ++ [item])) :
    ∀ piece ∈ partition size limit items, holds piece :=
  forall_mem_partitionFrom holds rfl (absurd rfl) single longer

end

/-- Every piece of a list keeps to the limit. -/
theorem keepsLimit_of_mem_partition
    {size : α → Nat}
    {limit : Nat}
    {items piece : List α}
    (member : piece ∈ partition size limit items) :
    KeepsLimit limit (piece.map size) := by
  refine forall_mem_partition (fun piece => KeepsLimit limit (piece.map size))
    (fun item _ => keepsLimit_singleton limit (size item)) (fun _ _ _ _ stays => ?_) piece member
  rw [List.map_append, List.map_singleton]
  exact keepsLimit_snoc stays

example : partition id 2 [0, 3, 1] = [[0, 3], [1]] := by decide

theorem infix_of_mem_partition
    {size : α → Nat}
    {limit : Nat}
    {items piece : List α}
    (member : piece ∈ partition size limit items) :
    piece <:+: items := by
  have inside := List.infix_of_mem_flatten member
  rwa [flatten_partition] at inside

/-- No piece of a list is empty. -/
theorem ne_nil_of_mem_partition
    {size : α → Nat}
    {limit : Nat}
    {items piece : List α}
    (member : piece ∈ partition size limit items) :
    piece ≠ [] :=
  forall_mem_partition (· ≠ []) (fun item _ => List.cons_ne_nil item [])
    (fun _ _ _ _ _ => List.concat_ne_nil _ _) piece member

end GlyphLayout
