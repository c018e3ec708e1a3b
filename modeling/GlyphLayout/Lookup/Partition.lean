/-!
# Cutting a list into pieces

A list is cut from its start: a piece goes on as long as the sizes of its items add up to no
more than a limit.  An item that is larger than the limit stands in a piece of its own.
-/

namespace GlyphLayout

variable {α : Type}

/-- The pieces of the remaining items, where `current` is the open piece, reversed. -/
def partitionFrom (size : α → Nat) (limit : Nat) (current : List α) (total : Nat) :
    List α → List (List α)
  | [] => if current.isEmpty then [] else [current.reverse]
  | item :: rest =>
      if 0 < total ∧ limit < total + size item then
        current.reverse :: partitionFrom size limit [item] (size item) rest
      else
        partitionFrom size limit (item :: current) (total + size item) rest

/-- The pieces of a list. -/
def partition (size : α → Nat) (limit : Nat) (items : List α) : List (List α) :=
  partitionFrom size limit [] 0 items

theorem flatten_partitionFrom
    (size : α → Nat)
    (limit : Nat)
    (current : List α)
    (total : Nat)
    (items : List α) :
    (partitionFrom size limit current total items).flatten = current.reverse ++ items := by
  induction items generalizing current total with
  | nil =>
      cases current with
      | nil => rfl
      | cons head tail => simp [partitionFrom]
  | cons item rest ih =>
      unfold partitionFrom
      split
      · simp [ih]
      · simp [ih]

/-- Nothing is lost, doubled or moved. -/
theorem flatten_partition (size : α → Nat) (limit : Nat) (items : List α) :
    (partition size limit items).flatten = items := by
  simp [partition, flatten_partitionFrom]

end GlyphLayout
