import GlyphLayout.Definitions.MarkPlace
import GlyphLayout.Lookup.Compilation

/-!
# Tables in order of keys

Look-up in a sorted map after an insertion, for keys of which two are the same whenever
neither is below the other.  Marks and their places are such keys.
-/

namespace GlyphLayout

/-! ## Orders of keys -/

instance stringTrichotomous : Std.Trichotomous (α := String) (· < ·) :=
  ⟨fun _ _ notBelow notAbove =>
    String.le_antisymm (String.not_lt.mp notAbove) (String.not_lt.mp notBelow)⟩

namespace MarkMember

instance : Std.Irrefl (α := MarkMember) (· < ·) := by
  refine ⟨fun member below => ?_⟩
  rcases below with below | ⟨_, below⟩
  · exact String.lt_irrefl _ below
  · exact String.lt_irrefl _ below

instance : Std.Trichotomous (α := MarkMember) (· < ·) := by
  refine ⟨fun first second notBelow notAbove => ?_⟩
  obtain ⟨glyph, markClass⟩ := first
  obtain ⟨otherGlyph, otherClass⟩ := second
  have sameGlyph : glyph = otherGlyph := stringTrichotomous.trichotomous _ _
    (fun below => notBelow (.inl below)) (fun above => notAbove (.inl above))
  subst sameGlyph
  have sameClass : markClass = otherClass := stringTrichotomous.trichotomous _ _
    (fun below => notBelow (.inr ⟨rfl, below⟩)) (fun above => notAbove (.inr ⟨rfl, above⟩))
  rw [sameClass]

end MarkMember

namespace MarkPlace

instance : Std.Trichotomous (α := MarkPlace) (· < ·) := by
  refine ⟨fun first second notBelow notAbove => ?_⟩
  obtain ⟨member, component⟩ := first
  obtain ⟨otherMember, otherComponent⟩ := second
  have sameMember : member = otherMember := Std.Trichotomous.trichotomous _ _
    (fun below => notBelow (.inl below)) (fun above => notAbove (.inl above))
  subst sameMember
  have notLess : ¬ component < otherComponent := fun below => notBelow (.inr ⟨rfl, below⟩)
  have notMore : ¬ otherComponent < component := fun above => notAbove (.inr ⟨rfl, above⟩)
  have sameComponent : component = otherComponent := by
    rw [UInt16.lt_iff_toNat_lt] at notLess notMore
    exact UInt16.toNat_inj.mp (by omega)
  rw [sameComponent]

end MarkPlace

/-! ## The first entry from a key on -/

namespace SortedMap

/-- The first entry that is not below a key comes no later than any other such entry. -/
theorem exists_firstFrom?
    {κ ν : Type} [LT κ] [DecidableLT κ]
    {map : SortedMap κ ν}
    {key : κ}
    {entry : κ × ν}
    (present : entry ∈ map.entries)
    (notBelow : ¬ entry.1 < key) :
    ∃ first, map.firstFrom? key = some first ∧ ¬ first.1 < key
      ∧ (first = entry ∨ first.1 < entry.1) := by
  obtain ⟨first, found⟩ : ∃ first, map.firstFrom? key = some first :=
    Option.isSome_iff_exists.mp (List.find?_isSome.mpr ⟨entry, present, by simpa using notBelow⟩)
  obtain ⟨firstPasses, before, after, split, skipped⟩ := List.find?_eq_some_iff_append.mp found
  refine ⟨first, found, by simpa using firstPasses, ?_⟩
  have sorted := map.sorted
  rw [split, List.pairwise_append, List.pairwise_cons] at sorted
  rw [split, List.mem_append, List.mem_cons] at present
  rcases present with earlier | rfl | later
  · exact absurd (by simpa using skipped entry earlier) notBelow
  · exact .inl rfl
  · exact .inr (sorted.2.1.1 entry later)

end SortedMap

/-! ## Look-up after an insertion -/

namespace SortedMap

variable {κ ν : Type} [LT κ] [DecidableLT κ]

/-- The keys after an insertion are the new one and those from before. -/
theorem mem_map_fst_put_iff
    [Std.Trichotomous (α := κ) (· < ·)]
    {key other : κ}
    {value : ν}
    {entries : List (κ × ν)} :
    other ∈ (put key value entries).map Prod.fst ↔ other = key ∨ other ∈ entries.map Prod.fst := by
  induction entries with
  | nil => simp [put]
  | cons entry rest ih =>
      unfold put
      split
      · simp
      · rename_i notBelow
        split
        · rw [List.map_cons, List.mem_cons, ih, List.map_cons, List.mem_cons]
          exact or_left_comm
        · rename_i notAbove
          have same : key = entry.1 :=
            Std.Trichotomous.trichotomous key entry.1 notBelow notAbove
          simp [same]

variable [DecidableEq κ]

/-- A key has its new value after an insertion, and every other key the one from before. -/
theorem find?_put
    [Std.Irrefl (α := κ) (· < ·)]
    [Std.Trichotomous (α := κ) (· < ·)]
    (key : κ)
    (value : ν)
    (entries : List (κ × ν))
    (other : κ) :
    Entries.find? other (put key value entries) =
      if other = key then some value else Entries.find? other entries := by
  induction entries with
  | nil => simp [put, Entries.find?, eq_comm]
  | cons entry rest ih =>
      unfold put
      split
      · simp only [Entries.find?, eq_comm]
      · rename_i notBelow
        split
        · rename_i above
          rw [Entries.find?, ih, Entries.find?]
          split
          · rename_i here
            have different : other ≠ key := by
              rintro rfl
              exact Std.Irrefl.irrefl _ (here ▸ above)
            rw [if_neg different]
          · rfl
        · rename_i notAbove
          have same : key = entry.1 :=
            Std.Trichotomous.trichotomous key entry.1 notBelow notAbove
          rw [Entries.find?, Entries.find?, same]
          simp only [eq_comm]
          split <;> rfl

theorem get?_insert
    [Trans (α := κ) (β := κ) (γ := κ) (· < ·) (· < ·) (· < ·)]
    [Std.Irrefl (α := κ) (· < ·)]
    [Std.Trichotomous (α := κ) (· < ·)]
    (map : SortedMap κ ν)
    (key : κ)
    (value : ν)
    (other : κ) :
    (map.insert key value).get? other = if other = key then some value else map.get? other :=
  find?_put key value map.entries other

end SortedMap

/-! ## Marks -/

namespace Definitions

/-- A mark has an anchor for a class exactly if it has a place there, at any component. -/
theorem hasMarkAnchor_iff
    {definitions : Definitions}
    {member : MarkMember} :
    definitions.hasMarkAnchor member ↔
      ∃ entry ∈ definitions.markAnchors.entries, entry.1.member = member := by
  unfold hasMarkAnchor
  constructor
  · intro anchored
    split at anchored
    · rename_i place anchor found
      exact ⟨(place, anchor), List.mem_of_find?_eq_some found, beq_iff_eq.mp anchored⟩
    · cases anchored
  · rintro ⟨entry, present, rfl⟩
    have notBelow : ¬ entry.1 < ⟨entry.1.member, 0⟩ := by
      rintro (below | ⟨_, below⟩)
      · exact Std.Irrefl.irrefl _ below
      · exact absurd below (UInt16.not_lt.mpr (UInt16.zero_le ..))
    obtain ⟨first, found, firstNotBelow, place⟩ :=
      SortedMap.exists_firstFrom? present notBelow
    rw [found]
    refine beq_iff_eq.mpr ?_
    rcases place with rfl | before | ⟨same, _⟩
    · rfl
    -- A place of an earlier member would be in front of component zero.
    · exact absurd (Or.inl before) firstNotBelow
    · exact same

end Definitions

namespace Compilation

/-- The marks that are in use after some more have been noted. -/
theorem uses_useMarks
    {state : Compilation}
    {members : List MarkMember}
    {member : MarkMember} :
    (state.useMarks members).uses member ↔ member ∈ members ∨ state.uses member := by
  induction members generalizing state with
  | nil => simp [useMarks]
  | cons first rest ih =>
      have split : state.useMarks (first :: rest) = (state.useMarks [first]).useMarks rest := rfl
      have single : (state.useMarks [first]).uses member ↔
          member = first ∨ state.uses member := by
        simp only [useMarks, uses, List.foldl_cons, List.foldl_nil, SortedMap.get?_insert]
        by_cases same : member = first <;> simp [same]
      rw [split, ih, single, List.mem_cons, or_left_comm, or_assoc]

end Compilation
end GlyphLayout
