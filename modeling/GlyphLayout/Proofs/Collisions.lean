import GlyphLayout.Proofs.Behaviour
import GlyphLayout.Proofs.Keys
import Mathlib.Data.List.Flatten

/-!
# Pieces in the way

The pieces of a lookup that has been cut may be in the way of other lookups: their keys may be
taken, or other pieces may share their base.  Then some lookup does not do the same any more:
one of several that share a block loses its label, or a block loses the rules of a piece.
-/

namespace GlyphLayout

open Feature (Effect reach rulesUnder)

namespace Compilation

variable {drafts kept : List CompiledLookup} {parts : List (List CompiledLookup)}
  {draft other piece : CompiledLookup} {part : List CompiledLookup} {name : String}

/-! ## Where lookups come from -/

/-- The second lookup is one of the pieces that the first has been cut into. -/
structure IsPieceOf (draft piece : CompiledLookup) : Prop where
  noPiece : draft.id.isPiece = false
  group : pieceGroup? piece = some draft.key
  base : piece.id.base = draft.sourceName
  flags : piece.flagRules = draft.flagRules
  filled : piece.rules ≠ []
  /-- The first piece has the name of the draft, all others have names generated from it. -/
  named : piece.sourceName = draft.sourceName
    ∨ ∃ suffix, IsSuffix suffix ∧ piece.key = suffixed draft.key suffix

theorem Divides.cases_of_mem
    (divides : Divides draft part)
    (member : piece ∈ part) :
    (piece = draft ∧ part = [draft]) ∨ (2 ≤ part.length ∧ IsPieceOf draft piece) := by
  cases divides with
  | whole => exact .inl ⟨List.mem_singleton.mp member, rfl⟩
  | @pieces pieces noPiece base pairs several filled joined =>
      have group := pieceGroup?_of_mem_pieceDrafts pairs member
      obtain ⟨number, rules, present, _, rfl⟩ := mem_pieceDrafts member
      refine .inr ⟨by rwa [length_pieceDrafts], noPiece, group, rfl, rfl,
        filled rules present, ?_⟩
      cases number with
      | zero => exact .inl rfl
      | succ index =>
          have suffix := isSuffix_decimal (index + 2)
          refine .inr ⟨_, suffix, ?_⟩
          rw [CompiledLookup.key, CompiledLookup.key, ← lowercase_suffixed suffix,
            ← pieceName_succ]
          rfl

theorem Divides.isPieceOf
    (divides : Divides draft part)
    (several : 2 ≤ part.length)
    (member : piece ∈ part) :
    IsPieceOf draft piece := by
  rcases divides.cases_of_mem member with ⟨_, rfl⟩ | ⟨_, isPiece⟩
  · simp at several
  · exact isPiece

theorem Divides.namedAfter (divides : Divides draft part) :
    NamedAfter draft.sourceName (part.map CompiledLookup.sourceName) := by
  cases divides with
  | whole => exact namedAfter_singleton _
  | @pieces pieces _ _ _ several =>
      apply namedAfter_pieces draft
      rintro rfl
      simp at several

/-- What is left in a table of the parts that stand for some drafts. -/
structure Remains (drafts : List CompiledLookup) (parts : List (List CompiledLookup))
    (kept : List CompiledLookup) : Prop where
  divided : List.Forall₂ Divides drafts parts
  draftKeys : (drafts.map CompiledLookup.key).Nodup
  /-- The key of a piece is generated from its base. -/
  pieceKeys : ∀ draft ∈ drafts, draft.id.isPiece →
    ∃ suffix, IsSuffix suffix ∧ draft.key = suffixed (Text.lowercase draft.id.base) suffix
  keptKeys : (kept.map CompiledLookup.key).Nodup
  subset : ∀ lookup ∈ kept, lookup ∈ parts.flatten
  /-- Each key has been kept, if not for the same lookup. -/
  covered : ∀ lookup ∈ parts.flatten, ∃ other ∈ kept, other.key = lookup.key
  isDraft : ∀ draft ∈ drafts, IsDraft draft
  keptDraft : ∀ lookup ∈ kept, IsDraft lookup

section Remains

variable (remains : Remains drafts parts kept)

include remains

theorem Remains.eq_of_key_eq
    (present : draft ∈ drafts)
    (otherPresent : other ∈ drafts)
    (same : draft.key = other.key) :
    draft = other :=
  List.inj_on_of_nodup_map remains.draftKeys present otherPresent same

theorem Remains.eq_of_kept
    (present : piece ∈ kept)
    (otherPresent : other ∈ kept)
    (same : piece.key = other.key) :
    piece = other :=
  List.inj_on_of_nodup_map remains.keptKeys present otherPresent same

theorem Remains.divides (member : (draft, part) ∈ drafts.zip parts) : Divides draft part :=
  (List.forall₂_iff_zip.mp remains.divided).2 member

theorem Remains.exists_part (present : draft ∈ drafts) :
    ∃ part, (draft, part) ∈ drafts.zip parts := by
  rw [← List.map_fst_zip remains.divided.length_eq.le] at present
  obtain ⟨⟨_, part⟩, member, rfl⟩ := List.mem_map.mp present
  exact ⟨part, member⟩

theorem Remains.part_eq
    {another : List CompiledLookup}
    (member : (draft, part) ∈ drafts.zip parts)
    (otherMember : (draft, another) ∈ drafts.zip parts) :
    part = another := by
  have nodup : ((drafts.zip parts).map Prod.fst).Nodup := by
    rw [List.map_fst_zip remains.divided.length_eq.le]
    exact remains.draftKeys.of_map _
  exact congrArg Prod.snd (List.inj_on_of_nodup_map nodup member otherMember rfl)

/-- What is left is a draft that is still whole, or a piece of a draft. -/
theorem Remains.origin (present : piece ∈ kept) :
    ∃ draft part, (draft, part) ∈ drafts.zip parts ∧ piece ∈ part
      ∧ ((piece = draft ∧ part = [draft]) ∨ (2 ≤ part.length ∧ IsPieceOf draft piece)) := by
  obtain ⟨part, inParts, inside⟩ := List.mem_flatten.mp (remains.subset piece present)
  rw [← List.map_snd_zip remains.divided.length_eq.ge] at inParts
  obtain ⟨⟨draft, _⟩, member, rfl⟩ := List.mem_map.mp inParts
  exact ⟨draft, _, member, inside, (remains.divides member).cases_of_mem inside⟩

end Remains

/-! ## Keys that are taken -/

/-- A piece of the first draft has a generated name, and its key is the one of the second. -/
def Shadows (drafts : List CompiledLookup) (parts : List (List CompiledLookup))
    (draft other : CompiledLookup) : Prop :=
  ∃ part piece suffix, (draft, part) ∈ drafts.zip parts ∧ piece ∈ part ∧ IsSuffix suffix
    ∧ piece.key = suffixed draft.key suffix ∧ other.key = piece.key

theorem Shadows.length_lt (shadows : Shadows drafts parts draft other) :
    draft.key.length < other.key.length := by
  obtain ⟨_, _, suffix, _, _, isSuffix, key, same⟩ := shadows
  rw [same, key, suffixed, String.length_append, String.length_ofList]
  cases isSuffix <;> simp

/-- If any key is taken, then one by a piece of a draft whose own key is free. -/
theorem exists_unshadowed
    (shadows : Shadows drafts parts draft other)
    (present : other ∈ drafts) :
    ∃ first, ∃ second ∈ drafts, Shadows drafts parts first second
      ∧ ∀ earlier, ¬ Shadows drafts parts earlier first := by
  induction length : draft.key.length using Nat.strong_induction_on
    generalizing draft other with
  | _ bound ih =>
      by_cases free : ∀ earlier, ¬ Shadows drafts parts earlier draft
      · exact ⟨draft, other, present, shadows, free⟩
      · obtain ⟨earlier, before⟩ := not_forall_not.mp free
        have inside : draft ∈ drafts := by
          obtain ⟨part, _, _, member, _⟩ := shadows
          exact (List.of_mem_zip member).1
        exact ih earlier.key.length (length ▸ before.length_lt) before inside rfl

section Remains

variable (remains : Remains drafts parts kept)

include remains

/-- A draft whose key is free has its first piece where the draft would be. -/
theorem Remains.exists_first
    (member : (draft, part) ∈ drafts.zip parts)
    (several : 2 ≤ part.length)
    (free : ∀ earlier, ¬ Shadows drafts parts earlier draft) :
    ∃ first ∈ kept, first.key = draft.key ∧ first.sourceName = draft.sourceName
      ∧ IsPieceOf draft first := by
  obtain ⟨top, rest, rfl, topKey⟩ := (remains.divides member).exists_first
  obtain ⟨first, present, sameKey⟩ := remains.covered top
    (List.mem_flatten.mpr ⟨_, (List.of_mem_zip member).2, List.mem_cons_self ..⟩)
  obtain ⟨origin, part, originMember, inside, whole | ⟨_, isPiece⟩⟩ :=
    remains.origin present
  · obtain ⟨rfl, rfl⟩ := whole
    have same := remains.eq_of_key_eq (List.of_mem_zip originMember).1
      (List.of_mem_zip member).1 (sameKey.trans topKey)
    subst same
    rw [remains.part_eq member originMember] at several
    simp at several
  · rcases isPiece.named with same | ⟨suffix, isSuffix, key⟩
    · have keys : origin.key = draft.key :=
        (congrArg Text.lowercase same).symm.trans (sameKey.trans topKey)
      have equal := remains.eq_of_key_eq (List.of_mem_zip originMember).1
        (List.of_mem_zip member).1 keys
      subst equal
      exact ⟨first, present, sameKey.trans topKey, same, isPiece⟩
    · exact (free origin ⟨part, first, suffix, originMember, inside, isSuffix, key,
        (sameKey.trans topKey).symm⟩).elim

/-- The base of a piece of the project is what its key gives away. -/
theorem Remains.key_of_group
    (present : other ∈ drafts)
    (group : pieceGroup? other = some name) :
    ∃ suffix, IsSuffix suffix ∧ other.key = suffixed name suffix := by
  obtain ⟨piece, _, rfl⟩ := pieceGroup?_eq_some_iff.mp group
  exact remains.pieceKeys other present piece

/-- What is left in the place of a piece of the project is gathered as the piece was. -/
theorem Remains.exists_gathered
    (present : other ∈ drafts)
    (group : pieceGroup? other = some name) :
    ∃ place ∈ kept, place.key = other.key ∧ pieceGroup? place = some name := by
  obtain ⟨part, member⟩ := remains.exists_part present
  have divides := remains.divides member
  have isPiece := (pieceGroup?_eq_some_iff.mp group).1
  have inFlatten : other ∈ parts.flatten := by
    refine List.mem_flatten.mpr ⟨part, (List.of_mem_zip member).2, ?_⟩
    obtain ⟨top, rest, rfl, _⟩ := divides.exists_first
    rcases divides.cases_of_mem (List.mem_cons_self ..) with ⟨_, whole⟩ | ⟨_, cut⟩
    · rw [whole]
      exact List.mem_singleton_self _
    · rw [cut.noPiece] at isPiece
      cases isPiece
  obtain ⟨place, inside, sameKey⟩ := remains.covered other inFlatten
  refine ⟨place, inside, sameKey, ?_⟩
  obtain ⟨origin, part, originMember, _, ⟨rfl, _⟩ | ⟨_, pieceOf⟩⟩ := remains.origin inside
  · rw [remains.eq_of_key_eq (List.of_mem_zip originMember).1 present sameKey, group]
  · rcases pieceOf.named with same | ⟨suffix, isSuffix, key⟩
    · have equal := remains.eq_of_key_eq (List.of_mem_zip originMember).1 present
        ((congrArg Text.lowercase same).symm.trans sameKey)
      rw [← equal, pieceOf.noPiece] at isPiece
      cases isPiece
    · obtain ⟨digits, areDigits, ownKey⟩ := remains.key_of_group present group
      rw [← key.symm.trans sameKey] at ownKey
      rw [pieceOf.group, (suffixed_inj isSuffix areDigits ownKey).1]

end Remains

/-! ## Effects that stay the same -/

/-- What the drafts do under the name of a group. -/
def effectsOf (lookups group : List CompiledLookup) : List (List Effect) :=
  reach (draftBlocks lookups) (blockName group)

/-- A reference to a draft has the same effects as one to what is left in its place. -/
def SameEffects (drafts kept : List CompiledLookup) : Prop :=
  ∀ used ∈ drafts, ∀ place ∈ kept, place.key = used.key →
    (groupAt? drafts used).map (effectsOf drafts) = (groupAt? kept place).map (effectsOf kept)

theorem SameEffects.isSome
    (same : SameEffects drafts kept)
    (present : draft ∈ drafts)
    (place : piece ∈ kept)
    (key : piece.key = draft.key)
    (visible : (groupAt? drafts draft).isSome) :
    (groupAt? kept piece).isSome := by
  rw [← Option.isSome_map (f := effectsOf kept), ← same draft present piece place key,
    Option.isSome_map]
  exact visible

/-- Of the lookups that share a block only one has a label. -/
theorem eq_of_isSome
    {first second : CompiledLookup}
    (firstGroup : pieceGroup? first = some name)
    (secondGroup : pieceGroup? second = some name)
    (firstVisible : (groupAt? kept first).isSome)
    (secondVisible : (groupAt? kept second).isSome) :
    first = second := by
  simp only [groupAt?, firstGroup, secondGroup, Option.isSome_ite] at firstVisible secondVisible
  rw [firstVisible, Option.some.injEq] at secondVisible
  exact secondVisible

/-- The rules under a name are those of the groups with that name. -/
theorem rulesUnder_draftBlocks
    {lookups : List CompiledLookup}
    (isDraft : ∀ draft ∈ lookups, IsDraft draft)
    (name : String) :
    rulesUnder (draftBlocks lookups) name =
      ((groups lookups).filter fun group => blockName group = name).map
        fun group => (essence group).2 := by
  have inGroup {group : List CompiledLookup} (member : group ∈ groups lookups) :
      ∀ draft ∈ group, IsDraft draft := fun draft inside =>
    isDraft draft (mem_of_mem_groups member inside)
  have names : ∀ group ∈ groups lookups,
      decide ((blockFor id group).name = name) = decide (blockName group = name) :=
    fun group member => by rw [name_blockFor (inGroup member)]
  rw [rulesUnder, draftBlocks, List.filter_map, List.map_map]
  simp only [Function.comp_def]
  rw [List.filter_congr names]
  apply List.map_congr_left
  intro group member
  exact filter_isEffective_blockFor fun draft inside =>
    (inGroup (List.mem_of_mem_filter member) draft inside).acts

theorem mem_lengths_reach_iff
    {lookups : List CompiledLookup}
    (isDraft : ∀ draft ∈ lookups, IsDraft draft)
    {count : Nat} :
    count ∈ (reach (draftBlocks lookups) name).map List.length ↔
      ∃ group ∈ groups lookups, blockName group = name ∧ (essence group).2.length = count := by
  simp only [reach, rulesUnder_draftBlocks isDraft, List.map_map, List.mem_map, List.mem_filter,
    Function.comp_apply, List.length_map, decide_eq_true_eq, and_assoc]

section Remains

variable (remains : Remains drafts parts kept)

include remains

/-- What is left under the base of a draft is a piece of the draft, if no other pieces share it. -/
theorem Remains.mem_part_of_gathered
    (member : (draft, part) ∈ drafts.zip parts)
    (alone : piecesAmong drafts draft.key = [])
    (gathered : piece ∈ piecesAmong kept draft.key) :
    piece ∈ part ∧ 2 ≤ part.length ∧ IsPieceOf draft piece := by
  obtain ⟨left, group⟩ := mem_piecesAmong.mp gathered
  obtain ⟨origin, another, originMember, within, ⟨rfl, _⟩ | ⟨several, isPiece⟩⟩ :=
    remains.origin left
  · have inDrafts := mem_piecesAmong.mpr ⟨(List.of_mem_zip originMember).1, group⟩
    rw [alone] at inDrafts
    cases inDrafts
  · have keys := isPiece.group.symm.trans group
    have equal := remains.eq_of_key_eq (List.of_mem_zip originMember).1
      (List.of_mem_zip member).1 (Option.some.inj keys)
    subst equal
    rw [remains.part_eq member originMember]
    exact ⟨within, several, isPiece⟩

/-- The pieces that are left make a block with the name of the draft. -/
theorem Remains.blockName_gathered
    {first : CompiledLookup}
    (member : (draft, part) ∈ drafts.zip parts)
    (alone : piecesAmong drafts draft.key = [])
    (inKept : first ∈ kept)
    (firstName : first.sourceName = draft.sourceName)
    (isFirst : IsPieceOf draft first) :
    blockName (piecesAmong kept draft.key) = draft.sourceName := by
  have inside := mem_piecesAmong.mpr ⟨inKept, isFirst.group⟩
  match shape : piecesAmong kept draft.key with
  | [] =>
      rw [shape] at inside
      cases inside
  | [lookup] =>
      rw [shape, List.mem_singleton] at inside
      rw [blockName, ← inside, firstName]
  | top :: second :: others =>
      have among : top ∈ piecesAmong kept draft.key := shape ▸ List.mem_cons_self ..
      exact (remains.mem_part_of_gathered member alone among).2.2.base

/-- Only they do. -/
theorem Remains.eq_gathered
    {first : CompiledLookup}
    {group : List CompiledLookup}
    (inKept : first ∈ kept)
    (firstKey : first.key = draft.key)
    (place : groupAt? kept first = some (piecesAmong kept draft.key))
    (inGroups : group ∈ groups kept)
    (called : blockName group = draft.sourceName) :
    group = piecesAmong kept draft.key := by
  obtain ⟨top, left, found⟩ := List.mem_filterMap.mp inGroups
  have head := head?_of_groupAt? found
  match group with
  | [] => cases head
  | [lookup] =>
      cases head
      have keys : top.key = first.key := (congrArg Text.lowercase called).trans firstKey.symm
      have same := remains.eq_of_kept left inKept keys
      subst same
      exact Option.some.inj (found.symm.trans place)
  | lookup :: second :: others =>
      cases head
      rcases eq_of_groupAt? found with ⟨_, single⟩ | ⟨base, piece, shape, _⟩
      · cases single
      · rw [shape, ← (pieceGroup?_eq_some_iff.mp piece).2.2]
        exact congrArg (piecesAmong kept) (congrArg Text.lowercase called)

/-- A block that has lost a piece is shorter than the one of the draft. -/
theorem Remains.length_gathered_lt
    (member : (draft, part) ∈ drafts.zip parts)
    (several : 2 ≤ part.length)
    (alone : piecesAmong drafts draft.key = [])
    (inside : piece ∈ part)
    (gone : piece ∉ kept) :
    (essence (piecesAmong kept draft.key)).2.length < (essence [draft]).2.length := by
  have divides := remains.divides member
  have isPiece {lookup : CompiledLookup} (within : lookup ∈ part) : IsPieceOf draft lookup :=
    divides.isPieceOf several within
  have flags (some : List CompiledLookup) (within : some ⊆ part) :
      ((some.head?.map CompiledLookup.flagRules).getD []).length ≤ draft.flagRules.length := by
    cases some with
    | nil => exact Nat.zero_le _
    | cons lookup _ =>
        exact (congrArg List.length (isPiece (within (List.mem_cons_self ..))).flags).le
  have rules : (piece.rules ++ (piecesAmong kept draft.key).flatMap CompiledLookup.rules).length ≤
      (part.flatMap CompiledLookup.rules).length := by
    have nodup : (piece :: piecesAmong kept draft.key).Nodup := by
      refine List.nodup_cons.mpr ⟨fun among => gone (mem_piecesAmong.mp among).1, ?_⟩
      exact (remains.keptKeys.of_map _).filter _
    have within : piece :: piecesAmong kept draft.key ⊆ part :=
      List.cons_subset.mpr ⟨inside, fun lookup among =>
        (remains.mem_part_of_gathered member alone among).1⟩
    obtain ⟨ordered, perm, sublist⟩ := nodup.subperm within
    have counted := (perm.flatMap_right CompiledLookup.rules).length_eq
    rw [List.flatMap_cons] at counted
    rw [← counted]
    exact (sublist.flatMap _).length_le
  have some := List.length_pos_iff.mpr (isPiece inside).filled
  have less := flags (piecesAmong kept draft.key) fun lookup among =>
    (remains.mem_part_of_gathered member alone among).1
  obtain ⟨top, rest, rfl, _⟩ := divides.exists_first
  have topFlags := congrArg List.length (isPiece (List.mem_cons_self ..)).flags
  rw [← divides.essence_eq]
  simp only [essence, List.length_append, List.head?_cons, Option.map_some, Option.getD_some]
    at rules less ⊢
  omega

end Remains

section Remains

variable (remains : Remains drafts parts kept) (same : SameEffects drafts kept)

include remains same

/-- No other pieces share the base of a draft that has been cut and whose key is free. -/
theorem Remains.piecesAmong_eq_nil
    (member : (draft, part) ∈ drafts.zip parts)
    (several : 2 ≤ part.length)
    (free : ∀ earlier, ¬ Shadows drafts parts earlier draft) :
    piecesAmong drafts draft.key = [] := by
  obtain ⟨first, inKept, firstKey, _, isPiece⟩ := remains.exists_first member several free
  have firstVisible := same.isSome (List.of_mem_zip member).1 inKept firstKey
    (by simp [groupAt?, pieceGroup?_of_noPiece isPiece.noPiece])
  by_contra joined
  obtain ⟨foreign, others, shape⟩ := List.exists_cons_of_ne_nil joined
  obtain ⟨present, group⟩ := mem_piecesAmong.mp (shape ▸ List.mem_cons_self ..)
  obtain ⟨place, inside, placeKey, gathered⟩ := remains.exists_gathered present group
  have placeVisible := same.isSome present inside placeKey (by simp [groupAt?, group, shape])
  have equal := eq_of_isSome isPiece.group gathered firstVisible placeVisible
  have keys : draft.key = foreign.key := by rw [← firstKey, equal, placeKey]
  have drafts_eq := remains.eq_of_key_eq (List.of_mem_zip member).1 present keys
  rw [← drafts_eq, pieceGroup?_of_noPiece isPiece.noPiece] at group
  cases group

/-- No piece of a draft is lost whose key is free. -/
theorem Remains.mem_of_mem_part
    (member : (draft, part) ∈ drafts.zip parts)
    (several : 2 ≤ part.length)
    (free : ∀ earlier, ¬ Shadows drafts parts earlier draft)
    (inside : piece ∈ part) :
    piece ∈ kept := by
  by_contra gone
  have present := (List.of_mem_zip member).1
  have alone := remains.piecesAmong_eq_nil same member several free
  obtain ⟨first, inKept, firstKey, firstName, isFirst⟩ :=
    remains.exists_first member several free
  have own : groupAt? drafts draft = some [draft] := by
    simp [groupAt?, pieceGroup?_of_noPiece isFirst.noPiece]
  have visible := same.isSome present inKept firstKey (by simp [own])
  obtain ⟨gathered, place⟩ := Option.isSome_iff_exists.mp visible
  rcases eq_of_groupAt? place with ⟨none, _⟩ | ⟨base, group, rfl, _⟩
  · rw [isFirst.group] at none
    cases none
  rw [isFirst.group, Option.some.injEq] at group
  subst group
  have named := remains.blockName_gathered member alone inKept firstName isFirst
  have effects := same draft present first inKept firstKey
  simp only [own, place, Option.map_some, Option.some.injEq, effectsOf, named] at effects
  -- The block of the draft is as long as all its rules, so it has a counterpart that is.
  have long : (essence [draft]).2.length ∈
      (reach (draftBlocks drafts) draft.sourceName).map List.length := by
    refine (mem_lengths_reach_iff remains.isDraft).mpr ⟨[draft], ?_, rfl, rfl⟩
    exact List.mem_filterMap.mpr ⟨draft, present, own⟩
  rw [show blockName [draft] = draft.sourceName from rfl] at effects
  rw [effects] at long
  obtain ⟨group, inGroups, called, length⟩ := (mem_lengths_reach_iff remains.keptDraft).mp long
  have same := remains.eq_gathered inKept firstKey place inGroups called
  subst same
  exact (remains.length_gathered_lt member several alone inside gone).ne length

/-- No key is taken. -/
theorem Remains.not_shadows
    (present : other ∈ drafts) :
    ¬ Shadows drafts parts draft other := by
  intro taken
  obtain ⟨draft, other, present, shadows, free⟩ := exists_unshadowed taken present
  obtain ⟨part, piece, suffix, member, inside, isSuffix, key, otherKey⟩ := shadows
  have divides := remains.divides member
  rcases divides.cases_of_mem inside with ⟨rfl, _⟩ | ⟨several, isPiece⟩
  · exact suffixed_ne_self isSuffix _ key.symm
  have alone := remains.piecesAmong_eq_nil same member several free
  obtain ⟨first, inKept, firstKey, _, isFirst⟩ := remains.exists_first member several free
  have left := remains.mem_of_mem_part same member several free inside
  have otherGroup : pieceGroup? other = none := by
    cases group : pieceGroup? other with
    | none => rfl
    | some base =>
        obtain ⟨_, areDigits, ownKey⟩ := remains.key_of_group present group
        have bases := (suffixed_inj isSuffix areDigits
          (key.symm.trans (otherKey.symm.trans ownKey))).1
        rw [← bases] at group
        have among := mem_piecesAmong.mpr ⟨present, group⟩
        rw [alone] at among
        cases among
  have firstVisible := same.isSome (List.of_mem_zip member).1 inKept firstKey
    (by simp [groupAt?, pieceGroup?_of_noPiece isFirst.noPiece])
  have pieceVisible := same.isSome present left otherKey.symm (by simp [groupAt?, otherGroup])
  have equal := eq_of_isSome isFirst.group isPiece.group firstVisible pieceVisible
  rw [← equal, firstKey] at key
  exact suffixed_ne_self isSuffix _ key.symm

/-- No two pieces or drafts that stand in the table have one key. -/
theorem Remains.nodup_cutKeys : (parts.flatten.map CompiledLookup.key).Nodup := by
  have named : AllNamedAfter (drafts.map CompiledLookup.sourceName) parts := by
    rw [AllNamedAfter, List.forall₂_map_left_iff]
    exact remains.divided.imp fun draft part divides => divides.namedAfter
  have differ : ((drafts.map CompiledLookup.sourceName).map Text.lowercase).Nodup := by
    rw [List.map_map]
    exact remains.draftKeys
  apply (nodup_keys_iff named differ).mpr
  intro key generated name another taken
  obtain ⟨_, _, paired, inside⟩ := exists_of_mem_generatedKeys generated
  rw [List.zip_map_left] at paired
  obtain ⟨⟨draft, part⟩, member, equal⟩ := List.mem_map.mp paired
  cases equal
  obtain ⟨piece, filtered, rfl⟩ := List.mem_map.mp inside
  obtain ⟨within, different⟩ := List.mem_filter.mp filtered
  obtain ⟨other, present, rfl⟩ := List.mem_map.mp another
  have own : piece.sourceName ≠ draft.sourceName := of_decide_eq_true different
  have divides := remains.divides member
  rcases divides.cases_of_mem within with ⟨rfl, _⟩ | ⟨_, isPiece⟩
  · exact own rfl
  · obtain ⟨suffix, isSuffix, key⟩ := isPiece.named.resolve_left own
    exact remains.not_shadows same present
      ⟨part, piece, suffix, member, within, isSuffix, key, taken.symm⟩

/-- Lookups can only have the same effects if their pieces are in no other lookup's way. -/
theorem Remains.regroups : Regroups drafts parts where
  divided := remains.divided
  draftKeys := remains.draftKeys
  cutKeys := remains.nodup_cutKeys same
  alone _ _ member several := remains.piecesAmong_eq_nil same member several fun _ =>
    remains.not_shadows same (List.of_mem_zip member).1

end Remains

end Compilation
end GlyphLayout
