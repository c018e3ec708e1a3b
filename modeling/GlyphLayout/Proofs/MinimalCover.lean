import GlyphLayout.Proofs.Partition

/-!
# Minimal covers

The pieces of a list are a cover: they stand at consecutive ranges of it, none of them empty, from
its start to its end.  Where every single item keeps to the limit, so does every piece, and no
other such cover has fewer ranges.
-/

namespace GlyphLayout

variable {α : Type} {size : α → Nat} {limit : Nat}

/-! ## Covers -/

/-- Consecutive ranges from one place of a list to another, none of them empty. -/
inductive Covers : Nat → Nat → List (Nat × Nat) → Prop
  | nil (place : Nat) : Covers place place []
  | cons
      {start middle stop : Nat} {ranges : List (Nat × Nat)}
      (filled : start < middle)
      (covers : Covers middle stop ranges) :
      Covers start stop ((start, middle) :: ranges)

/-- The items of a list that stand in a range. -/
def itemsIn (items : List α) (range : Nat × Nat) : List α :=
  items.extract range.1 range.2

/-- The sizes of the items in a range, added up. -/
def sizeIn (size : α → Nat) (items : List α) (range : Nat × Nat) : Nat :=
  ((itemsIn items range).map size).sum

theorem Covers.le
    {start stop : Nat}
    {ranges : List (Nat × Nat)}
    (covers : Covers start stop ranges) :
    start ≤ stop := by
  induction covers with
  | nil => exact Nat.le_refl _
  | cons filled _ ih => omega

theorem Covers.ranges_eq_nil_iff
    {start stop : Nat}
    {ranges : List (Nat × Nat)}
    (covers : Covers start stop ranges) :
    ranges = [] ↔ start = stop := by
  cases covers with
  | nil => simp
  | cons filled rest =>
      have last := rest.le
      simp only [List.cons_ne_nil, false_iff]
      omega

/-- The items of a cover, taken range after range, are the items it covers. -/
theorem Covers.flatten_itemsIn
    (items : List α)
    {start stop : Nat}
    {ranges : List (Nat × Nat)}
    (covers : Covers start stop ranges) :
    (ranges.map (itemsIn items)).flatten = items.extract start stop := by
  induction covers with
  | nil => simp [List.extract_eq_take_drop]
  | @cons start middle stop _ filled rest ih =>
      have last := rest.le
      have parts : stop - start = (middle - start) + (stop - middle) := by omega
      have shifted : start + (middle - start) = middle := by omega
      rw [List.map_cons, List.flatten_cons, ih]
      simp only [itemsIn, List.extract_eq_take_drop]
      rw [parts, List.take_add, List.drop_drop, shifted]

/-- Every range of a cover has an item. -/
theorem Covers.itemsIn_ne_nil
    {items : List α}
    {start stop : Nat}
    {ranges : List (Nat × Nat)}
    (covers : Covers start stop ranges)
    (inside : stop ≤ items.length) :
    ∀ range ∈ ranges, itemsIn items range ≠ [] := by
  induction covers with
  | nil => simp
  | @cons start middle stop _ filled rest ih =>
      refine List.forall_mem_cons.mpr ⟨?_, ih inside⟩
      have last := rest.le
      have long : 0 < (itemsIn items (start, middle)).length := by
        simp only [itemsIn, List.extract_eq_take_drop, List.length_take, List.length_drop]
        omega
      exact List.ne_nil_of_length_pos long

/-- Pieces that are not empty stand at the ranges of a cover. -/
theorem exists_covers_of_pieces
    {pieces : List (List α)}
    (filled : ∀ piece ∈ pieces, piece ≠ [])
    (before : List α) :
    ∃ ranges,
      Covers before.length (before ++ pieces.flatten).length ranges
        ∧ pieces = ranges.map (itemsIn (before ++ pieces.flatten)) := by
  induction pieces generalizing before with
  | nil => exact ⟨[], by simpa using Covers.nil before.length, rfl⟩
  | cons piece pieces ih =>
      obtain ⟨some, others⟩ := List.forall_mem_cons.mp filled
      obtain ⟨ranges, covers, each⟩ := ih others (before ++ piece)
      rw [List.append_assoc, ← List.flatten_cons] at covers each
      have middle : (before ++ piece).length = before.length + piece.length :=
        List.length_append
      rw [middle] at covers
      have long : 0 < piece.length := List.length_pos_iff.mpr some
      refine ⟨(before.length, before.length + piece.length) :: ranges,
        .cons (by omega) covers, ?_⟩
      rw [List.map_cons, ← each]
      simp [itemsIn, List.extract_eq_take_drop]

/-! ## Keeping to the limit -/

/-- If every item keeps to the limit, so does every piece. -/
theorem sum_le_of_mem_partition
    {items piece : List α}
    (small : ∀ item ∈ items, size item ≤ limit)
    (member : piece ∈ partition size limit items) :
    (piece.map size).sum ≤ limit := by
  refine forall_mem_partition (fun piece => (piece.map size).sum ≤ limit)
    (fun item inside => ?_) (fun piece item inside keeps stays => ?_) piece member
  · simpa using small item inside
  · have alone := small item inside
    rw [List.map_append, List.map_singleton, List.sum_append, List.sum_singleton]
    omega

/-! ## Fewest pieces -/

/-- Of two cuts of the same items, the one whose open piece is smaller has no more pieces, and
each of them has at most one piece more than the other.

The two facts need each other: when only one of the cuts closes its piece, the other is compared
with a cut that has just begun. -/
theorem length_partitionFrom_le
    (size : α → Nat)
    (limit total other : Nat)
    {first second : List α}
    (begun : first ≠ [])
    (otherBegun : second ≠ [])
    (items : List α) :
    (total ≤ other →
        (partitionFrom size limit first total items).length
          ≤ (partitionFrom size limit second other items).length)
      ∧ (partitionFrom size limit first total items).length
          ≤ 1 + (partitionFrom size limit second other items).length := by
  induction items generalizing first second total other with
  | nil => simp [partitionFrom, begun, otherBegun]
  | cons item items ih =>
      unfold partitionFrom
      split
      · split
        · simp
        · obtain ⟨fewer, _⟩ := ih (size item) (other + size item)
            (List.cons_ne_nil item []) (List.cons_ne_nil item second)
          have fewer := fewer (by omega)
          simp only [List.length_cons]
          exact ⟨fun smaller => by omega, by omega⟩
      · split
        · obtain ⟨_, oneMore⟩ := ih (total + size item) (size item)
            (List.cons_ne_nil item first) (List.cons_ne_nil item [])
          simp only [List.length_cons]
          exact ⟨fun _ => by omega, by omega⟩
        · obtain ⟨fewer, oneMore⟩ := ih (total + size item) (other + size item)
            (List.cons_ne_nil item first) (List.cons_ne_nil item second)
          exact ⟨fun smaller => fewer (by omega), oneMore⟩

/-- A cut whose open piece has room for the first items of another division has no more pieces
than that division. -/
theorem length_partitionFrom_le_of_division
    (total : Nat)
    {current : List α}
    (begun : current ≠ [])
    (front : List α)
    (rest : List (List α))
    (room : total + (front.map size).sum ≤ limit)
    (small : ∀ piece ∈ rest, (piece.map size).sum ≤ limit) :
    (partitionFrom size limit current total (front ++ rest.flatten)).length
      ≤ 1 + rest.length := by
  induction rest generalizing current total front with
  | nil =>
      induction front generalizing current total with
      | nil => simp [partitionFrom, begun]
      | cons item front ih =>
          rw [List.map_cons, List.sum_cons] at room
          rw [List.cons_append, partitionFrom, if_neg (by omega)]
          exact ih (total + size item) (List.cons_ne_nil item current) (by omega)
  | cons piece rest restIh =>
      obtain ⟨fits, others⟩ := List.forall_mem_cons.mp small
      induction front generalizing current total with
      | nil =>
          -- The open piece is full; a piece that has just begun has room for the next one.
          have fresh := restIh 0 begun piece (by omega) others
          have oneMore := (length_partitionFrom_le size limit total 0 begun begun
            (piece ++ rest.flatten)).2
          rw [List.nil_append, List.flatten_cons, List.length_cons]
          omega
      | cons item front ih =>
          rw [List.map_cons, List.sum_cons] at room
          rw [List.cons_append, partitionFrom, if_neg (by omega)]
          exact ih (total + size item) (List.cons_ne_nil item current) (by omega)

/-- No division into pieces within the limit has fewer pieces. -/
theorem length_partition_le_of_division
    {division : List (List α)}
    (filled : ∀ piece ∈ division, piece ≠ [])
    (small : ∀ piece ∈ division, (piece.map size).sum ≤ limit) :
    (partition size limit division.flatten).length ≤ division.length := by
  cases division with
  | nil => simp [partition, partitionFrom]
  | cons piece rest =>
      obtain ⟨some, _⟩ := List.forall_mem_cons.mp filled
      obtain ⟨fits, others⟩ := List.forall_mem_cons.mp small
      obtain ⟨item, front, rfl⟩ := List.exists_cons_of_ne_nil some
      rw [List.map_cons, List.sum_cons] at fits
      have fewest := length_partitionFrom_le_of_division (0 + size item)
        (List.cons_ne_nil item []) front rest (by omega) others
      rw [partition, List.flatten_cons, List.cons_append, partitionFrom, if_neg (by omega),
        List.length_cons]
      omega

/-! ## The cover of a list -/

/-- The pieces of a list are a cover of it, and where no single item is beyond the limit, no range
of it is, and every other cover within the limit has as many ranges or more. -/
theorem partition_minimalCover (size : α → Nat) (limit : Nat) (items : List α) :
    ∃ ranges,
      partition size limit items = ranges.map (itemsIn items)
        ∧ Covers 0 items.length ranges
        ∧ (ranges = [] ↔ items = [])
        ∧ ((∀ item ∈ items, size item ≤ limit) →
            (∀ range ∈ ranges, sizeIn size items range ≤ limit)
              ∧ ∀ others, Covers 0 items.length others →
                (∀ range ∈ others, sizeIn size items range ≤ limit) →
                  ranges.length ≤ others.length) := by
  obtain ⟨ranges, covers, pieces⟩ := exists_covers_of_pieces
    (fun piece (member : piece ∈ partition size limit items) => ne_nil_of_mem_partition member) []
  rw [List.nil_append, flatten_partition] at covers pieces
  rw [List.length_nil] at covers
  refine ⟨ranges, pieces, covers, ?_, fun small => ⟨fun range member => ?_, ?_⟩⟩
  · rw [covers.ranges_eq_nil_iff, eq_comm, List.length_eq_zero_iff]
  · refine sum_le_of_mem_partition small ?_
    rw [pieces]
    exact List.mem_map_of_mem member
  · intro others otherCovers otherSmall
    have whole := otherCovers.flatten_itemsIn items
    rw [List.extract_eq_take_drop, List.drop_zero, Nat.sub_zero, List.take_length] at whole
    have fewest := length_partition_le_of_division
      (List.forall_mem_map.mpr (otherCovers.itemsIn_ne_nil (Nat.le_refl _)))
      (List.forall_mem_map.mpr otherSmall)
    rw [whole, pieces] at fewest
    simpa using fewest

theorem partition_minimalCover_ones :
    ∃ ranges : List (Nat × Nat),
      partition id 3 [1, 1, 1, 1] = ranges.map (itemsIn [1, 1, 1, 1])
        ∧ (∀ range ∈ ranges, sizeIn id [1, 1, 1, 1] range ≤ 3)
        ∧ ranges.length ≤ [(0, 1), (1, 2), (2, 4)].length := by
  obtain ⟨ranges, pieces, _, _, within⟩ := partition_minimalCover id 3 [1, 1, 1, 1]
  obtain ⟨keeps, fewest⟩ := within (by decide)
  have other : Covers 0 4 [(0, 1), (1, 2), (2, 4)] :=
    .cons (by decide) (.cons (by decide) (.cons (by decide) (.nil 4)))
  exact ⟨ranges, pieces, keeps, fewest _ other (by decide)⟩

end GlyphLayout
