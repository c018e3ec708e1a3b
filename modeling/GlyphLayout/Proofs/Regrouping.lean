import GlyphLayout.Proofs.Cutting
import GlyphLayout.Proofs.Naming

/-!
# Pieces that come together again

The pieces of a lookup that has been cut are a group of their own as long as no other pieces
share their base.  Then each group of the drafts without a limit has a counterpart under the
limit, at the same place, with the same name and the same rules in the same order.
-/

namespace GlyphLayout

open Feature (Rule)

namespace Compilation

variable {drafts cut : List CompiledLookup} {parts : List (List CompiledLookup)}
  {draft : CompiledLookup} {part : List CompiledLookup} {name : String}

/-! ## Pieces of one lookup -/

theorem pieceGroup?_of_mem_pieceDrafts
    {pieces : List (List Rule)}
    {index : Nat}
    (pairs : draft.kind = .pairs)
    {piece : CompiledLookup}
    (member : piece ∈ pieceDrafts draft index pieces) :
    pieceGroup? piece = some draft.key := by
  obtain ⟨number, rules, _, _, rfl⟩ := mem_pieceDrafts member
  exact pieceGroup?_eq_some_iff.mpr ⟨rfl, pairs, rfl⟩

theorem piecesAmong_pieceDrafts
    {pieces : List (List Rule)}
    (pairs : draft.kind = .pairs)
    (name : String) :
    piecesAmong (pieceDrafts draft 0 pieces) name =
      if draft.key = name then pieceDrafts draft 0 pieces else [] := by
  unfold piecesAmong
  split
  · rename_i same
    apply List.filter_eq_self.mpr
    intro piece member
    rw [pieceGroup?_of_mem_pieceDrafts pairs member, same]
    exact decide_eq_true rfl
  · rename_i different
    apply List.filter_eq_nil_iff.mpr
    intro piece member
    rw [pieceGroup?_of_mem_pieceDrafts pairs member]
    simpa using different

theorem pieceGroup?_of_noPiece (noPiece : draft.id.isPiece = false) : pieceGroup? draft = none := by
  simp [pieceGroup?, noPiece]

theorem length_pieceDrafts (pieces : List (List Rule)) (index : Nat) :
    (pieceDrafts draft index pieces).length = pieces.length := by
  induction pieces generalizing index with
  | nil => rfl
  | cons _ _ ih => exact congrArg (· + 1) (ih (index + 1))

/-! ## Groups of pieces -/

theorem piecesAmong_append (first second : List CompiledLookup) (name : String) :
    piecesAmong (first ++ second) name = piecesAmong first name ++ piecesAmong second name :=
  List.filter_append ..

theorem two_le_length_of_divides
    (divides : Divides draft part) :
    part = [draft] ∨ (2 ≤ part.length ∧ draft.id.isPiece = false
      ∧ ∀ name, piecesAmong part name = if draft.key = name then part else []) := by
  cases divides with
  | whole => exact .inl rfl
  | pieces noPiece base pairs several filled joined =>
      refine .inr ⟨?_, noPiece, piecesAmong_pieceDrafts pairs⟩
      rw [length_pieceDrafts]
      exact several

/-- Cutting drafts changes nothing about a name that none of those cut has. -/
theorem piecesAmong_flatten_of_ne
    (divided : List.Forall₂ (fun draft part => Divides draft part
      ∧ (2 ≤ part.length → draft.key ≠ name)) drafts parts) :
    piecesAmong parts.flatten name = piecesAmong drafts name := by
  induction divided with
  | nil => rfl
  | @cons draft part drafts parts head _ ih =>
      rw [List.flatten_cons, piecesAmong_append, ih, ← List.singleton_append (x := draft),
        piecesAmong_append]
      congr 1
      rcases two_le_length_of_divides head.1 with rfl | ⟨several, noPiece, among⟩
      · rfl
      · rw [among, if_neg (head.2 several)]
        simp [piecesAmong, pieceGroup?_of_noPiece noPiece]

/-- The pieces of a cut draft are together if no other pieces share their base. -/
theorem piecesAmong_flatten_of_mem
    (divided : List.Forall₂ Divides drafts parts)
    (distinct : (drafts.map CompiledLookup.key).Nodup)
    (member : (draft, part) ∈ drafts.zip parts)
    (several : 2 ≤ part.length)
    (none : piecesAmong drafts draft.key = []) :
    piecesAmong parts.flatten draft.key = part := by
  induction divided with
  | nil => cases member
  | @cons first own drafts parts head tail ih =>
      rw [List.map_cons, List.nodup_cons] at distinct
      rw [← List.singleton_append (x := first), piecesAmong_append,
        List.append_eq_nil_iff] at none
      rw [List.flatten_cons, piecesAmong_append]
      rw [List.zip_cons_cons, List.mem_cons] at member
      rcases member with same | later
      · cases same
        have others : List.Forall₂ (fun other part => Divides other part
            ∧ (2 ≤ part.length → other.key ≠ draft.key)) drafts parts := by
          rw [List.forall₂_iff_zip]
          refine ⟨tail.length_eq, fun {other _} inside =>
            ⟨(List.forall₂_iff_zip.mp tail).2 inside, fun _ same => distinct.1 ?_⟩⟩
          exact same ▸ List.mem_map_of_mem (List.of_mem_zip inside).1
        rw [piecesAmong_flatten_of_ne others, none.2, List.append_nil]
        rcases two_le_length_of_divides head with rfl | ⟨_, _, among⟩
        · simp at several
        · rw [among, if_pos rfl]
      · rw [ih distinct.2 later none.2]
        have different : first.key ≠ draft.key := fun same =>
          distinct.1 (same ▸ List.mem_map_of_mem (List.of_mem_zip later).1)
        rcases two_le_length_of_divides head with rfl | ⟨_, _, among⟩
        · rw [none.1]
          rfl
        · rw [among, if_neg different]
          rfl

/-! ## Groups and their counterparts -/

/-- Drafts and the parts that stand for them, where no other pieces join those of a cut draft. -/
structure Regroups (drafts : List CompiledLookup) (parts : List (List CompiledLookup)) : Prop where
  divided : List.Forall₂ Divides drafts parts
  draftKeys : (drafts.map CompiledLookup.key).Nodup
  cutKeys : (parts.flatten.map CompiledLookup.key).Nodup
  alone : ∀ draft part, (draft, part) ∈ drafts.zip parts → 2 ≤ part.length →
    piecesAmong drafts draft.key = []

/-- What a group comes to in a feature file, labels and comments left out. -/
def essence (group : List CompiledLookup) : String × List Rule :=
  (blockName group,
    (group.head?.map CompiledLookup.flagRules).getD [] ++ group.flatMap CompiledLookup.rules)

theorem Divides.essence_eq (divides : Divides draft part) : essence part = essence [draft] := by
  cases divides with
  | whole => rfl
  | @pieces pieces noPiece base pairs several filled joined =>
      have rules := flatMap_rules_pieceDrafts draft pieces 0
      match pieces with
      | [] => simp at several
      | [_] => simp at several
      | first :: second :: rest =>
          have split : essence (pieceDrafts draft 0 (first :: second :: rest)) =
              (draft.sourceName, draft.flagRules
                ++ (pieceDrafts draft 0 (first :: second :: rest)).flatMap
                    CompiledLookup.rules) := rfl
          rw [split, rules, joined]
          simp [essence, blockName]

theorem Divides.exists_first (divides : Divides draft part) :
    ∃ first rest, part = first :: rest ∧ first.key = draft.key := by
  cases divides with
  | whole => exact ⟨draft, [], rfl, rfl⟩
  | @pieces pieces _ _ _ several =>
      match pieces with
      | [] => simp at several
      | first :: rest => exact ⟨_, _, rfl, rfl⟩

/-- A draft that stays whole stays in the group that it was in. -/
theorem Regroups.groupAt?_whole
    (regroups : Regroups drafts parts)
    (present : draft ∈ drafts) :
    groupAt? parts.flatten draft = groupAt? drafts draft := by
  unfold groupAt?
  cases piece : pieceGroup? draft with
  | none => rfl
  | some name =>
      have same : piecesAmong parts.flatten name = piecesAmong drafts name := by
        refine piecesAmong_flatten_of_ne (List.forall₂_iff_zip.mpr
          ⟨regroups.divided.length_eq, fun {other part} inside =>
            ⟨(List.forall₂_iff_zip.mp regroups.divided).2 inside, fun several equal => ?_⟩⟩)
        have none := regroups.alone other part inside several
        rw [equal] at none
        exact List.ne_nil_of_mem (mem_piecesAmong.mpr ⟨present, piece⟩) none
      simp only [same]

/-- The pieces of a cut draft are the group at the place of the first of them. -/
theorem Regroups.groupAt?_piece
    (regroups : Regroups drafts parts)
    (member : (draft, part) ∈ drafts.zip parts)
    (several : 2 ≤ part.length)
    {piece : CompiledLookup}
    (inside : piece ∈ part) :
    groupAt? parts.flatten piece = if part.head? = some piece then some part else none := by
  have among := piecesAmong_flatten_of_mem regroups.divided regroups.draftKeys member several
    (regroups.alone draft part member several)
  have group := (mem_piecesAmong.mp (among.symm ▸ inside)).2
  simp only [groupAt?, group, among]

theorem Regroups.filterMap_groupAt?
    (regroups : Regroups drafts parts)
    (member : (draft, part) ∈ drafts.zip parts) :
    (part.filterMap (groupAt? parts.flatten)).map essence =
      (groupAt? drafts draft).toList.map essence := by
  have divides := (List.forall₂_iff_zip.mp regroups.divided).2 member
  rcases two_le_length_of_divides divides with rfl | ⟨several, noPiece, _⟩
  · rw [List.filterMap_cons, List.filterMap_nil,
      regroups.groupAt?_whole (List.of_mem_zip member).1]
    cases groupAt? drafts draft <;> rfl
  · have single : groupAt? drafts draft = some [draft] := by
      simp [groupAt?, pieceGroup?_of_noPiece noPiece]
    obtain ⟨first, rest, rfl, _⟩ := divides.exists_first
    have nodup : (first :: rest).Nodup :=
      (List.nodup_flatten.mp (regroups.cutKeys.of_map _)).1 _ (List.of_mem_zip member).2
    have others : rest.filterMap (groupAt? parts.flatten) = [] := by
      apply List.filterMap_eq_nil_iff.mpr
      intro piece inside
      rw [regroups.groupAt?_piece member several (List.mem_cons_of_mem _ inside), if_neg]
      intro same
      rw [List.head?_cons, Option.some.injEq] at same
      exact (List.nodup_cons.mp nodup).1 (same ▸ inside)
    rw [List.filterMap_cons, regroups.groupAt?_piece member several (List.mem_cons_self ..),
      List.head?_cons, if_pos rfl, others, single]
    simp [divides.essence_eq]

/-- Each group has its counterpart, at the same place and with the same essence. -/
theorem Regroups.essences_eq (regroups : Regroups drafts parts) :
    (groups parts.flatten).map essence = (groups drafts).map essence := by
  have each : List.Forall₂ (fun draft part =>
      (part.filterMap (groupAt? parts.flatten)).map essence =
        (groupAt? drafts draft).toList.map essence) drafts parts :=
    List.forall₂_iff_zip.mpr
      ⟨regroups.divided.length_eq, fun inside => regroups.filterMap_groupAt? inside⟩
  have general : ∀ {some : List CompiledLookup} {others : List (List CompiledLookup)}
      {first second : CompiledLookup → Option (List CompiledLookup)},
      List.Forall₂ (fun draft part =>
        (part.filterMap first).map essence = (second draft).toList.map essence) some others →
      (others.flatten.filterMap first).map essence = (some.filterMap second).map essence := by
    intro some others first second related
    induction related with
    | nil => rfl
    | @cons draft part some others head _ ih =>
        rw [List.flatten_cons, List.filterMap_append, List.map_append, head, ih,
          List.filterMap_cons]
        cases second draft <;> rfl
  exact general each

/-- The lookup that is found in place of a draft is in the block with the same name. -/
theorem Regroups.exists_place
    (regroups : Regroups drafts parts)
    (present : draft ∈ drafts) :
    ∃ place ∈ parts.flatten, place.key = draft.key
      ∧ (groupAt? parts.flatten place).map blockName = (groupAt? drafts draft).map blockName := by
  obtain ⟨part, member⟩ : ∃ part, (draft, part) ∈ drafts.zip parts := by
    rw [← List.map_fst_zip (Nat.le_of_eq regroups.divided.length_eq)] at present
    obtain ⟨⟨_, part⟩, member, rfl⟩ := List.mem_map.mp present
    exact ⟨part, member⟩
  have divides := (List.forall₂_iff_zip.mp regroups.divided).2 member
  have inParts := (List.of_mem_zip member).2
  rcases two_le_length_of_divides divides with rfl | ⟨several, noPiece, _⟩
  · refine ⟨draft, List.mem_flatten.mpr ⟨_, inParts, List.mem_singleton_self _⟩, rfl, ?_⟩
    rw [regroups.groupAt?_whole present]
  · obtain ⟨first, rest, rfl, key⟩ := divides.exists_first
    refine ⟨first, List.mem_flatten.mpr ⟨_, inParts, List.mem_cons_self ..⟩, key, ?_⟩
    have single : groupAt? drafts draft = some [draft] := by
      simp [groupAt?, pieceGroup?_of_noPiece noPiece]
    rw [regroups.groupAt?_piece member several (List.mem_cons_self ..), List.head?_cons,
      if_pos rfl, single]
    exact congrArg some (congrArg Prod.fst divides.essence_eq)

end Compilation
end GlyphLayout
