import GlyphLayout.Proofs.Merging

/-!
# Labels of merged lookups

Features refer to a lookup by the name of the block that has its rules.  The pieces of a block
behind the first have no label, since they are reached through the first.  Nothing is assumed
here about the keys under which the lookups stand.
-/

namespace GlyphLayout
namespace Compilation

variable {state : Compilation}

/-- The key is that of a piece which stands behind another piece of the same lookup. -/
def IsLaterPiece (state : Compilation) (key : String) : Prop :=
  ∃ group, key ∈ ((state.piecesOf group).drop 1).map Prod.fst

/-- The block has the rules of a lookup, alone or in front of the other pieces of its group. -/
inductive Houses (state : Compilation) (entry : String × CompiledLookup) :
    Feature.Lookup → Prop
  | alone (single : state.mergeGroup? entry.2 = none) : Houses state entry entry.2.block
  | first {group label : String} {others : List (String × CompiledLookup)}
      (pieces : state.piecesOf group = entry :: others)
      (several : others ≠ []) :
      Houses state entry (mergedBlock label entry.2 (others.map Prod.snd))

/-- What is known of the label under which a lookup can be referred to, if it has one. -/
structure LabelledAs (state : Compilation) (blocks : List Feature.Lookup)
    (entry : String × CompiledLookup) (label? : Option String) : Prop where
  none_iff : label? = none ↔ state.IsLaterPiece entry.1
  housed : ∀ label, label? = some label → ∃ block ∈ blocks, block.name = label
    ∧ state.Houses entry block

theorem LabelledAs.mono
    {blocks more : List Feature.Lookup}
    {entry : String × CompiledLookup}
    {label? : Option String}
    (labelled : LabelledAs state blocks entry label?) :
    LabelledAs state (blocks ++ more) entry label? where
  none_iff := labelled.none_iff
  housed label same := by
    obtain ⟨block, present, named, houses⟩ := labelled.housed label same
    exact ⟨block, List.mem_append_left _ present, named, houses⟩

/-! ## Groups of pieces -/

theorem nodup_keys_piecesOf (state : Compilation) (group : String) :
    ((state.piecesOf group).map Prod.fst).Nodup :=
  state.lookups.nodup_keys.sublist (List.filter_sublist.map _)

theorem eq_of_mem_entries
    {entry other : String × CompiledLookup}
    (present : entry ∈ state.lookups.entries)
    (otherPresent : other ∈ state.lookups.entries)
    (same : entry.1 = other.1) :
    entry = other :=
  List.inj_on_of_nodup_map state.lookups.nodup_keys present otherPresent same

theorem mem_keys_of_isLaterPiece
    {key : String}
    (later : state.IsLaterPiece key) :
    key ∈ state.lookups.keys := by
  obtain ⟨group, inside⟩ := later
  obtain ⟨entry, among, rfl⟩ := List.mem_map.mp inside
  exact List.mem_map_of_mem (List.mem_of_mem_filter (List.mem_of_mem_drop among))

/-- Pieces that are merged are all pieces of a group, and there are several of them. -/
theorem mergeGroup?_eq_some_iff
    {lookup : CompiledLookup}
    {pieces : List (String × CompiledLookup)} :
    state.mergeGroup? lookup = some pieces ↔
      ∃ group, pieceGroup? lookup = some group ∧ state.piecesOf group = pieces
        ∧ 1 < pieces.length := by
  unfold mergeGroup?
  rw [Option.bind_eq_some_iff]
  refine exists_congr fun group => and_congr_right fun _ => ?_
  dsimp only
  split <;> rename_i long
  · constructor
    · rintro ⟨⟩
      exact ⟨rfl, long⟩
    · rintro ⟨rfl, _⟩
      rfl
  · refine ⟨nofun, ?_⟩
    rintro ⟨rfl, several⟩
    exact absurd several long

/-- A later piece is merged, and it is not the first one. -/
theorem isLaterPiece_iff
    {entry : String × CompiledLookup}
    (present : entry ∈ state.lookups.entries) :
    state.IsLaterPiece entry.1 ↔ ∃ pieces, state.mergeGroup? entry.2 = some pieces
      ∧ pieces.head?.map Prod.fst ≠ some entry.1 := by
  constructor
  · rintro ⟨group, later⟩
    obtain ⟨other, inside, same⟩ := List.mem_map.mp later
    have among := List.mem_of_mem_drop inside
    obtain ⟨otherPresent, piece⟩ := List.mem_filter.mp among
    have found := eq_of_mem_entries otherPresent present same
    subst found
    have once := nodup_keys_piecesOf state group
    match shape : state.piecesOf group with
    | [] => simp [shape] at inside
    | first :: rest =>
        rw [shape] at inside once
        rw [List.map_cons, List.nodup_cons] at once
        refine ⟨first :: rest, mergeGroup?_eq_some_iff.mpr
          ⟨group, of_decide_eq_true piece, shape, ?_⟩, ?_⟩
        · have := List.length_pos_of_mem inside
          simpa using this
        · rintro head
          rw [List.head?_cons, Option.map_some, Option.some.injEq] at head
          exact once.1 (head ▸ List.mem_map_of_mem inside)
  · rintro ⟨pieces, several, later⟩
    obtain ⟨group, piece, rfl, _⟩ := mergeGroup?_eq_some_iff.mp several
    have among : entry ∈ state.piecesOf group :=
      List.mem_filter.mpr ⟨present, decide_eq_true piece⟩
    refine ⟨group, List.mem_map_of_mem ?_⟩
    match shape : state.piecesOf group with
    | [] => simp [shape] at among
    | first :: rest =>
        rw [shape] at among later
        rcases List.mem_cons.mp among with rfl | inside
        · exact absurd rfl later
        · exact inside

/-- The block for several pieces has the rules of the first one. -/
theorem houses_mergedBlock
    {entry : String × CompiledLookup}
    {pieces : List (String × CompiledLookup)}
    {label : String}
    (present : entry ∈ state.lookups.entries)
    (several : state.mergeGroup? entry.2 = some pieces)
    (head : pieces.head?.map Prod.fst = some entry.1) :
    state.Houses entry (mergedBlock label entry.2 ((pieces.drop 1).map Prod.snd)) := by
  obtain ⟨group, _, shape, long⟩ := mergeGroup?_eq_some_iff.mp several
  match pieces with
  | [] => simp at long
  | first :: others =>
      have firstPresent : first ∈ state.lookups.entries :=
        List.mem_of_mem_filter (shape ▸ List.mem_cons_self ..)
      obtain rfl : first = entry := eq_of_mem_entries firstPresent present (Option.some.inj head)
      refine .first shape ?_
      rintro rfl
      simp at long

/-! ## The run of the merger -/

/-- What a run over some entries has labelled. -/
structure LabelRun (state : Compilation) (done : List (String × CompiledLookup))
    (merged : MergedLookups) : Prop where
  keys_eq : merged.labels.keys = done.map Prod.fst
  labelled : ∀ key label?, (key, label?) ∈ merged.labels.entries →
    ∃ lookup, (key, lookup) ∈ done ∧ LabelledAs state merged.blocks (key, lookup) label?

/-- One more entry with a key of its own, and its label. -/
theorem LabelRun.snoc
    {done : List (String × CompiledLookup)}
    {blocks more : List Feature.Lookup}
    {labels : OrderedMap String (Option String)}
    {key : String}
    {lookup : CompiledLookup}
    {label? : Option String}
    (run : LabelRun state done ⟨blocks, labels⟩)
    (fresh : key ∉ done.map Prod.fst)
    (labelled : LabelledAs state (blocks ++ more) (key, lookup) label?) :
    LabelRun state (done ++ [(key, lookup)]) ⟨blocks ++ more, labels.insert key label?⟩ := by
  have new : key ∉ labels.keys := run.keys_eq ▸ fresh
  constructor
  · rw [OrderedMap.keys_insert, if_neg new, run.keys_eq, List.map_append, List.map_singleton]
  · intro other otherLabel? member
    rw [OrderedMap.entries_insert_of_not_mem _ _ new, List.mem_append, List.mem_singleton]
      at member
    rcases member with before | same
    · obtain ⟨found, present, known⟩ := run.labelled other otherLabel? before
      exact ⟨found, List.mem_append_left _ present, known.mono⟩
    · cases same
      exact ⟨lookup, List.mem_append_right _ (List.mem_singleton_self _), labelled⟩

theorem LabelRun.mergeLookup
    {done : List (String × CompiledLookup)}
    {merging : Merging}
    {entry : String × CompiledLookup}
    (run : LabelRun state done merging.merged)
    (present : entry ∈ state.lookups.entries)
    (fresh : entry.1 ∉ done.map Prod.fst) :
    ∃ log next, state.mergeLookup merging entry = ⟨log, .ok next⟩
      ∧ LabelRun state (done ++ [entry]) next.merged := by
  have later := isLaterPiece_iff present
  obtain ⟨log, next, result, step⟩ := exists_mergeStep state merging entry
  refine ⟨log, next, result, ?_⟩
  cases step with
  | alone single =>
      refine run.snoc fresh ⟨by simp [later, single], ?_⟩
      rintro _ ⟨⟩
      exact ⟨entry.2.block, by simp, rfl, .alone single⟩
  | first several head identified =>
      have notLater : ¬state.IsLaterPiece entry.1 := by
        rw [later]
        rintro ⟨others, same, behind⟩
        cases several.symm.trans same
        exact behind head
      refine run.snoc fresh ⟨iff_of_false nofun notLater, ?_⟩
      rintro _ ⟨⟩
      exact ⟨_, List.mem_append_right _ (List.mem_singleton_self _), rfl,
        houses_mergedBlock present several head⟩
  | later several behind =>
      have isLater : state.IsLaterPiece entry.1 := later.mpr ⟨_, several, behind⟩
      have unlabelled : LabelledAs state (merging.merged.blocks ++ []) entry none :=
        ⟨iff_of_true rfl isLater, nofun⟩
      have more := run.snoc fresh unlabelled
      rwa [List.append_nil] at more

/-- All entries that are left, one after the other. -/
theorem LabelRun.mergeLookups
    {done rest : List (String × CompiledLookup)}
    {merging : Merging}
    (run : LabelRun state done merging.merged)
    (present : ∀ entry ∈ rest, entry ∈ state.lookups.entries)
    (fresh : ((done ++ rest).map Prod.fst).Nodup) :
    ∃ log last, rest.foldlM state.mergeLookup merging = ⟨log, .ok last⟩
      ∧ LabelRun state (done ++ rest) last.merged := by
  induction rest generalizing done merging with
  | nil => exact ⟨[], merging, rfl, by simpa using run⟩
  | cons entry rest ih =>
      have new : entry.1 ∉ done.map Prod.fst := by
        rw [List.map_append, List.nodup_append] at fresh
        exact fun inside => fresh.2.2 _ inside _ (List.mem_cons_self ..) rfl
      obtain ⟨log, next, step, more⟩ :=
        run.mergeLookup (present entry (List.mem_cons_self ..)) new
      obtain ⟨later, last, steps, all⟩ := ih more
        (fun other member => present other (List.mem_cons_of_mem _ member))
        (by simpa using fresh)
      refine ⟨log ++ later, last, ?_, by simpa using all⟩
      rw [List.foldlM_cons]
      exact Outcome.bind_eq_ok_iff.mpr ⟨log, next, later, step, steps, rfl⟩

/-- The labels of a translation: all lookups have one, except for the later pieces. -/
structure LabelsLookups (state : Compilation) (merged : MergedLookups) : Prop where
  keys_eq : merged.labels.keys = state.lookups.keys
  later_iff : ∀ key, merged.labels.get? key = some none ↔ state.IsLaterPiece key
  housed : ∀ key label, merged.labels.get? key = some (some label) →
    ∃ lookup, state.lookups.get? key = some lookup
      ∧ ∃ block ∈ merged.blocks, block.name = label ∧ state.Houses (key, lookup) block

theorem LabelRun.labelsLookups
    {merged : MergedLookups}
    (run : LabelRun state state.lookups.entries merged) :
    LabelsLookups state merged where
  keys_eq := run.keys_eq
  later_iff key := by
    constructor
    · intro found
      obtain ⟨_, _, labelled⟩ := run.labelled key none (OrderedMap.get?_eq_some_iff.mp found)
      exact labelled.none_iff.mp rfl
    · intro later
      have present : key ∈ merged.labels.keys := run.keys_eq ▸ mem_keys_of_isLaterPiece later
      obtain ⟨⟨_, label?⟩, listed, rfl⟩ := List.mem_map.mp present
      obtain ⟨_, _, labelled⟩ := run.labelled _ label? listed
      rw [OrderedMap.get?_of_mem listed, labelled.none_iff.mpr later]
  housed key label found := by
    obtain ⟨lookup, present, labelled⟩ :=
      run.labelled key _ (OrderedMap.get?_eq_some_iff.mp found)
    exact ⟨lookup, OrderedMap.get?_of_mem present, labelled.housed label rfl⟩

/-- Merging comes to a result, in which all lookups but the later pieces have labels. -/
theorem exists_labelsLookups_of_merge (state : Compilation) :
    ∃ log merged, state.merge = ⟨log, .ok merged⟩ ∧ LabelsLookups state merged := by
  let start : Merging := { labels := state.labels }
  have nothing : LabelRun state [] start.merged := ⟨rfl, nofun⟩
  obtain ⟨before, reported⟩ := reportStrayPieces_eq_ok state
  obtain ⟨log, last, steps, run⟩ := nothing.mergeLookups (fun _ member => member)
    state.lookups.nodup_keys
  refine ⟨before ++ log, last.merged, ?_, run.labelsLookups⟩
  refine Outcome.bind_eq_ok_iff.mpr ⟨before, (), log, reported, ?_, rfl⟩
  exact Outcome.bind_eq_ok_iff.mpr ⟨log, last, [], steps, rfl, (List.append_nil log).symm⟩

end Compilation
end GlyphLayout
