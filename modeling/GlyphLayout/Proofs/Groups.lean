import GlyphLayout.Assembly.Subtables
import GlyphLayout.Proofs.Table
import Mathlib.Data.List.Nodup

/-!
# Groups of lookups

The lookups that go into one block are a group: the pieces of a lookup, at the place of the
first of them, and every other lookup on its own.  Each lookup is in exactly one group.
-/

namespace GlyphLayout
namespace Compilation

variable {lookups : List CompiledLookup} {lookup other : CompiledLookup}
  {group : List CompiledLookup} {name : String}

/-- Pieces of pair positioning lookups are gathered by their base, in any case. -/
theorem pieceGroup?_eq_some_iff :
    pieceGroup? lookup = some name ↔
      lookup.id.isPiece ∧ lookup.kind = .pairs ∧ Text.lowercase lookup.id.base = name := by
  unfold pieceGroup?
  split
  · rename_i both
    obtain ⟨piece, pairs⟩ := Bool.and_eq_true_iff.mp both
    simp [piece, eq_of_beq pairs]
  · rename_i other
    refine ⟨nofun, fun ⟨piece, pairs, _⟩ => (other ?_).elim⟩
    simp [piece, pairs]

/-- The lookups that are gathered under a name. -/
def piecesAmong (lookups : List CompiledLookup) (name : String) : List CompiledLookup :=
  lookups.filter fun lookup => pieceGroup? lookup = some name

/-- The group at the place of a lookup, unless an earlier place has it. -/
def groupAt? (lookups : List CompiledLookup) (lookup : CompiledLookup) :
    Option (List CompiledLookup) :=
  match pieceGroup? lookup with
  | none => some [lookup]
  | some name =>
      if (piecesAmong lookups name).head? = some lookup then some (piecesAmong lookups name)
      else none

/-- The groups of some lookups, in the order of their places. -/
def groups (lookups : List CompiledLookup) : List (List CompiledLookup) :=
  lookups.filterMap (groupAt? lookups)

theorem mem_piecesAmong :
    lookup ∈ piecesAmong lookups name ↔ lookup ∈ lookups ∧ pieceGroup? lookup = some name := by
  simp [piecesAmong]

/-- A group is a lookup that is no piece, or all pieces of a lookup. -/
theorem eq_of_groupAt? (found : groupAt? lookups lookup = some group) :
    (pieceGroup? lookup = none ∧ group = [lookup])
      ∨ ∃ name, pieceGroup? lookup = some name ∧ group = piecesAmong lookups name
          ∧ group.head? = some lookup := by
  unfold groupAt? at found
  split at found
  · rename_i alone
    exact .inl ⟨alone, (Option.some.inj found).symm⟩
  · rename_i name piece
    split at found
    · rename_i first
      cases found
      exact .inr ⟨name, piece, rfl, first⟩
    · cases found

/-- A group starts with the lookup at its place. -/
theorem head?_of_groupAt? (found : groupAt? lookups lookup = some group) :
    group.head? = some lookup := by
  rcases eq_of_groupAt? found with ⟨_, rfl⟩ | ⟨_, _, _, first⟩
  · rfl
  · exact first

theorem ne_nil_of_mem_groups (member : group ∈ groups lookups) : group ≠ [] := by
  obtain ⟨lookup, _, found⟩ := List.mem_filterMap.mp member
  intro empty
  rw [empty] at found
  cases head?_of_groupAt? found

/-- The lookups of a group are there, and they are gathered as the first one is. -/
theorem of_mem_group
    (present : lookup ∈ lookups)
    (found : groupAt? lookups lookup = some group)
    (member : other ∈ group) :
    other ∈ lookups ∧ pieceGroup? other = pieceGroup? lookup
      ∧ (pieceGroup? lookup = none → other = lookup) := by
  rcases eq_of_groupAt? found with ⟨alone, rfl⟩ | ⟨name, piece, rfl, _⟩
  · rw [List.mem_singleton] at member
    subst member
    exact ⟨present, rfl, fun _ => rfl⟩
  · obtain ⟨inside, same⟩ := mem_piecesAmong.mp member
    refine ⟨inside, same.trans piece.symm, fun alone => ?_⟩
    rw [piece] at alone
    cases alone

theorem mem_of_mem_groups (member : group ∈ groups lookups) (inside : lookup ∈ group) :
    lookup ∈ lookups := by
  obtain ⟨first, present, found⟩ := List.mem_filterMap.mp member
  exact (of_mem_group present found inside).1

/-- Every lookup is in some group. -/
theorem exists_group (present : lookup ∈ lookups) :
    ∃ group ∈ groups lookups, lookup ∈ group := by
  cases piece : pieceGroup? lookup with
  | none =>
      refine ⟨[lookup], List.mem_filterMap.mpr ⟨lookup, present, ?_⟩, List.mem_singleton_self _⟩
      simp [groupAt?, piece]
  | some name =>
      have inside : lookup ∈ piecesAmong lookups name := mem_piecesAmong.mpr ⟨present, piece⟩
      obtain ⟨first, rest, shape⟩ := List.exists_cons_of_ne_nil (List.ne_nil_of_mem inside)
      have firstInside : first ∈ piecesAmong lookups name := shape ▸ List.mem_cons_self ..
      obtain ⟨firstPresent, firstPiece⟩ := mem_piecesAmong.mp firstInside
      refine ⟨piecesAmong lookups name, List.mem_filterMap.mpr ⟨first, firstPresent, ?_⟩, inside⟩
      simp [groupAt?, firstPiece, shape]

/-- Groups at different places have no lookup in common. -/
theorem disjoint_of_groupAt?
    {first second : CompiledLookup}
    {firstGroup secondGroup : List CompiledLookup}
    (firstPresent : first ∈ lookups)
    (secondPresent : second ∈ lookups)
    (different : first ≠ second)
    (firstFound : groupAt? lookups first = some firstGroup)
    (secondFound : groupAt? lookups second = some secondGroup) :
    firstGroup.Disjoint secondGroup := by
  intro shared inFirst inSecond
  obtain ⟨_, sameFirst, aloneFirst⟩ := of_mem_group firstPresent firstFound inFirst
  obtain ⟨_, sameSecond, aloneSecond⟩ := of_mem_group secondPresent secondFound inSecond
  rcases eq_of_groupAt? firstFound with ⟨alone, _⟩ | ⟨name, piece, rfl, firstHead⟩
  · have secondAlone : pieceGroup? second = none := by rw [← sameSecond, sameFirst, alone]
    exact different ((aloneFirst alone).symm.trans (aloneSecond secondAlone))
  · have secondPiece : pieceGroup? second = some name := by rw [← sameSecond, sameFirst, piece]
    rcases eq_of_groupAt? secondFound with ⟨alone, _⟩ | ⟨_, again, rfl, secondHead⟩
    · rw [secondPiece] at alone
      cases alone
    · rw [secondPiece] at again
      cases again
      rw [firstHead] at secondHead
      exact different (Option.some.inj secondHead)

/-- Each lookup is in exactly one group, exactly once. -/
theorem flatten_groups_perm (nodup : lookups.Nodup) : (groups lookups).flatten.Perm lookups := by
  have once : (groups lookups).flatten.Nodup := by
    rw [List.nodup_flatten]
    constructor
    · intro group member
      obtain ⟨lookup, present, found⟩ := List.mem_filterMap.mp member
      rcases eq_of_groupAt? found with ⟨_, rfl⟩ | ⟨_, _, rfl, _⟩
      · exact List.nodup_singleton _
      · exact nodup.filter _
    · rw [groups, List.pairwise_filterMap]
      refine nodup.imp_of_mem fun firstPresent secondPresent different => ?_
      intro firstGroup firstFound secondGroup secondFound
      exact disjoint_of_groupAt? firstPresent secondPresent different firstFound secondFound
  apply (List.perm_ext_iff_of_nodup once nodup).mpr
  intro lookup
  rw [List.mem_flatten]
  constructor
  · rintro ⟨group, member, inside⟩
    obtain ⟨first, present, found⟩ := List.mem_filterMap.mp member
    exact (of_mem_group present found inside).1
  · intro present
    obtain ⟨group, member, inside⟩ := exists_group present
    exact ⟨group, member, inside⟩

end Compilation
end GlyphLayout
