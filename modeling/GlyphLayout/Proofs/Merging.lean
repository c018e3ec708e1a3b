import GlyphLayout.Proofs.Compiling
import GlyphLayout.Proofs.Groups

/-!
# Blocks of groups

Merging writes one block for each group of lookups, in the order of their places, and gives
each lookup whose place has a group the name of that block.  This is said here without the
state of a run: the pool in which the names of merged blocks have come up is the last one.
-/

namespace GlyphLayout

open Feature (Rule)

namespace Compilation

variable {state : Compilation} {pool next : IdentifierPool}

/-- The lookups of a table are found under their own keys. -/
def KeysOwn (table : OrderedMap String CompiledLookup) : Prop :=
  ∀ entry ∈ table.entries, entry.1 = entry.2.key

/-- Lookups are entered under their own keys. -/
theorem keysOwn_enter_empty (added : List CompiledLookup) : KeysOwn (enter ∅ added) := by
  intro entry member
  rcases mem_entries_enter member with before | ⟨_, own⟩
  · cases before
  · exact own

theorem keysOwn_of_entered
    {drafts : List CompiledLookup}
    {log : List Notice}
    (entered : Entered {} drafts log state) :
    KeysOwn state.lookups := by
  rw [entered.lookups_eq]
  exact keysOwn_enter_empty _

theorem entries_eq_of_keysOwn
    {table : OrderedMap String CompiledLookup}
    (own : KeysOwn table) :
    table.entries = table.values.map fun lookup => (lookup.key, lookup) := by
  rw [OrderedMap.values, List.map_map]
  refine (List.map_id _).symm.trans (List.map_congr_left fun entry member => ?_)
  exact Prod.ext (own entry member) rfl

/-- A table with each lookup under its own key has no key twice. -/
theorem nodup_keys_of_keysOwn
    {table : OrderedMap String CompiledLookup}
    (own : KeysOwn table) :
    (table.values.map CompiledLookup.key).Nodup := by
  have nodup := table.nodup_keys
  rw [entries_eq_of_keysOwn own] at nodup
  simpa [Function.comp_def] using nodup

/-- A lookup that is entered stays, or gives way to a later one with its key. -/
theorem exists_mem_values_enter
    {added : List CompiledLookup}
    {lookup : CompiledLookup}
    (present : lookup ∈ added) :
    ∃ other ∈ (enter ∅ added).values, other.key = lookup.key := by
  have key : lookup.key ∈ (enter ∅ added).keys :=
    mem_keys_enter.mpr (.inr (List.mem_map_of_mem present))
  obtain ⟨entry, inside, found⟩ := List.mem_map.mp key
  refine ⟨entry.2, List.mem_map_of_mem inside, ?_⟩
  rw [← keysOwn_enter_empty _ entry inside, found]

/-- To find a lookup by its key is to have it in the table. -/
theorem get?_eq_some_iff_of_keysOwn
    {table : OrderedMap String CompiledLookup}
    (own : KeysOwn table)
    {key : String}
    {lookup : CompiledLookup} :
    table.get? key = some lookup ↔ lookup ∈ table.values ∧ lookup.key = key := by
  rw [OrderedMap.get?_eq_some_iff]
  constructor
  · intro member
    exact ⟨List.mem_map_of_mem member, (own _ member).symm⟩
  · rintro ⟨member, rfl⟩
    obtain ⟨entry, inside, rfl⟩ := List.mem_map.mp member
    rw [← own entry inside]
    exact inside

/-- The block for the lookups of a group, which is never empty. -/
def blockFor (identify : String → String) : List CompiledLookup → Feature.Lookup
  | [] => { name := "" }
  | [lookup] => lookup.block
  | first :: others => mergedBlock (identify first.id.base) first others

/-- The names of merged blocks that the group of a lookup needs are known. -/
def NamesKnown (pool : IdentifierPool) (group : List CompiledLookup) : Prop :=
  ∀ first second others, group = first :: second :: others → pool.Knows first.id.base

theorem NamesKnown.mono
    {group : List CompiledLookup}
    (known : NamesKnown pool group)
    (grows : pool.Grows next) :
    NamesKnown next group :=
  fun first second others shape => (known first second others shape).mono grows

theorem namesKnown_singleton (pool : IdentifierPool) (lookup : CompiledLookup) :
    NamesKnown pool [lookup] := by
  intro _ _ _ shape
  cases shape

/-- Labels given later do not change the block of a group. -/
theorem blockFor_of_grows
    {group : List CompiledLookup}
    (known : NamesKnown pool group)
    (grows : pool.Grows next) :
    blockFor next.identifierOf group = blockFor pool.identifierOf group := by
  match group with
  | [] => rfl
  | [lookup] => rfl
  | first :: second :: others =>
      rw [blockFor, blockFor,
        IdentifierPool.identifierOf_of_grows grows (known first second others rfl)]
      · nofun
      · nofun

/-- The label of a lookup is the name of the block at its place. -/
def labelAt (pool : IdentifierPool) (lookups : List CompiledLookup) (lookup : CompiledLookup) :
    Option String :=
  (groupAt? lookups lookup).map fun group => (blockFor pool.identifierOf group).name

/-- What a run over some places of a table has written. -/
structure Places (state : Compilation) (places : List CompiledLookup) (merging : Merging) :
    Prop where
  grows : state.labels.Grows merging.labels
  distinct : state.labels.Distinct → merging.labels.Distinct
  known : ∀ group ∈ places.filterMap (groupAt? state.lookups.values),
    NamesKnown merging.labels group
  blocks_eq : merging.merged.blocks =
    (places.filterMap (groupAt? state.lookups.values)).map (blockFor merging.labels.identifierOf)
  entries_eq : merging.merged.labels.entries = places.map fun lookup =>
    (lookup.key, labelAt merging.labels state.lookups.values lookup)

theorem places_nil (state : Compilation) : Places state [] { labels := state.labels } where
  grows := .refl _
  distinct := id
  known := by simp
  blocks_eq := rfl
  entries_eq := rfl

theorem map_snd_piecesOf (state : Compilation) (name : String) :
    (state.piecesOf name).map Prod.snd = piecesAmong state.lookups.values name := by
  rw [piecesOf, piecesAmong, OrderedMap.values, List.filter_map]
  rfl

/-- One more place, whose group is known. -/
theorem Places.snoc
    {places : List CompiledLookup}
    {merging : Merging}
    {lookup : CompiledLookup}
    {pool : IdentifierPool}
    (run : Places state places merging)
    (fresh : lookup.key ∉ places.map CompiledLookup.key)
    (grows : merging.labels.Grows pool)
    (distinct : merging.labels.Distinct → pool.Distinct)
    (known : ∀ group, groupAt? state.lookups.values lookup = some group →
      NamesKnown pool group) :
    Places state (places ++ [lookup])
      { labels := pool
        merged := ⟨merging.merged.blocks
            ++ ((groupAt? state.lookups.values lookup).map (blockFor pool.identifierOf)).toList,
          merging.merged.labels.insert lookup.key
            (labelAt pool state.lookups.values lookup)⟩ } where
  grows := run.grows.trans grows
  distinct := distinct ∘ run.distinct
  known group member := by
    rw [List.filterMap_append, List.mem_append] at member
    rcases member with before | here
    · exact (run.known group before).mono grows
    · obtain ⟨other, same, found⟩ := List.mem_filterMap.mp here
      rw [List.mem_singleton] at same
      exact known group (same ▸ found)
  blocks_eq := by
    have kept := List.map_congr_left fun group member =>
      blockFor_of_grows (run.known group member) grows
    rw [List.filterMap_append, List.map_append, kept, ← run.blocks_eq]
    cases found : groupAt? state.lookups.values lookup <;> simp [found]
  entries_eq := by
    have keys : lookup.key ∉ merging.merged.labels.keys := by
      rw [OrderedMap.keys, run.entries_eq, List.map_map]
      exact fresh
    rw [OrderedMap.entries_insert_of_not_mem _ _ keys, List.map_append, run.entries_eq]
    congr 1
    refine List.map_congr_left fun other member => congrArg (Prod.mk other.key) ?_
    unfold labelAt
    cases found : groupAt? state.lookups.values other with
    | none => rfl
    | some group =>
        have present : group ∈ places.filterMap (groupAt? state.lookups.values) :=
          List.mem_filterMap.mpr ⟨other, member, found⟩
        simp only [Option.map_some, blockFor_of_grows (run.known group present) grows]

/-! ## The run of the merger -/

theorem eq_of_key_eq
    {table : OrderedMap String CompiledLookup}
    (own : KeysOwn table)
    {lookup other : CompiledLookup}
    (present : lookup ∈ table.values)
    (otherPresent : other ∈ table.values)
    (same : lookup.key = other.key) :
    lookup = other :=
  List.inj_on_of_nodup_map (nodup_keys_of_keysOwn own) present otherPresent same

/-- A lookup that is merged with nothing is a group on its own. -/
theorem groupAt?_of_mergeGroup?_none
    {lookup : CompiledLookup}
    (present : lookup ∈ state.lookups.values)
    (alone : state.mergeGroup? lookup = none) :
    groupAt? state.lookups.values lookup = some [lookup] := by
  unfold groupAt?
  unfold mergeGroup? at alone
  cases piece : pieceGroup? lookup with
  | none => rfl
  | some name =>
      simp only [piece, Option.bind_some, ite_eq_right_iff, reduceCtorEq, imp_false, Nat.not_lt]
        at alone
      have inside : lookup ∈ piecesAmong state.lookups.values name :=
        mem_piecesAmong.mpr ⟨present, piece⟩
      rw [← List.length_map Prod.snd, map_snd_piecesOf] at alone
      have single : piecesAmong state.lookups.values name = [lookup] := by
        match shape : piecesAmong state.lookups.values name with
        | [] => simp [shape] at inside
        | [other] =>
            rw [shape, List.mem_singleton] at inside
            rw [inside]
        | _ :: _ :: _ => simp [shape] at alone
      simp [single]

/-- The first of several pieces has the group of all of them, and the others have none. -/
theorem groupAt?_of_mergeGroup?_some
    {lookup : CompiledLookup}
    {pieces : List (String × CompiledLookup)}
    (own : KeysOwn state.lookups)
    (present : lookup ∈ state.lookups.values)
    (several : state.mergeGroup? lookup = some pieces) :
    if pieces.head?.map Prod.fst = some lookup.key then
      ∃ second others, (pieces.drop 1).map Prod.snd = second :: others
        ∧ groupAt? state.lookups.values lookup = some (lookup :: second :: others)
    else groupAt? state.lookups.values lookup = none := by
  unfold mergeGroup? at several
  obtain ⟨name, piece, several⟩ := Option.bind_eq_some_iff.mp several
  dsimp only at several
  split at several
  · rename_i long
    cases several
    have same := map_snd_piecesOf state name
    match shape : state.piecesOf name with
    | [] => simp [shape] at long
    | [_] => simp [shape] at long
    | first :: second :: others =>
        rw [shape, List.map_cons, List.map_cons] at same
        have firstEntry : first ∈ state.lookups.entries :=
          List.mem_of_mem_filter (shape ▸ List.mem_cons_self ..)
        have firstPresent : first.2 ∈ state.lookups.values := List.mem_map_of_mem firstEntry
        split
        · rename_i head
          rw [List.head?_cons, Option.map_some, Option.some.injEq, own first firstEntry] at head
          have firstSame := eq_of_key_eq own firstPresent present head
          refine ⟨second.2, others.map Prod.snd, rfl, ?_⟩
          simp [groupAt?, piece, ← same, firstSame]
        · rename_i later
          have different : first.2 ≠ lookup := by
            intro firstSame
            apply later
            rw [List.head?_cons, Option.map_some, own first firstEntry, firstSame]
          simp [groupAt?, piece, ← same, different]
  · cases several

theorem reportFlags_eq_ok (first : CompiledLookup) (others : List CompiledLookup) :
    ∃ log, reportFlags first others = ⟨log, .ok ()⟩ := by
  unfold reportFlags
  split
  · exact ⟨_, rfl⟩
  · exact ⟨[], rfl⟩

/--
The ways in which an entry of the table is merged: nothing is merged with it, the other pieces
come behind it, or it comes behind an earlier piece.
-/
inductive MergeStep (state : Compilation) (merging : Merging) (entry : String × CompiledLookup) :
    Merging → Prop
  | alone
      (single : state.mergeGroup? entry.2 = none) :
      MergeStep state merging entry
        { merging with
          merged := ⟨merging.merged.blocks ++ [entry.2.block],
            merging.merged.labels.insert entry.1 (some entry.2.label)⟩ }
  | first
      {pieces : List (String × CompiledLookup)} {named : String × IdentifierPool}
      (several : state.mergeGroup? entry.2 = some pieces)
      (head : pieces.head?.map Prod.fst = some entry.1)
      (identified : merging.labels.identify entry.2.id.base = named) :
      MergeStep state merging entry
        { labels := named.2
          merged := ⟨merging.merged.blocks
              ++ [mergedBlock named.1 entry.2 ((pieces.drop 1).map Prod.snd)],
            merging.merged.labels.insert entry.1 (some named.1)⟩ }
  | later
      {pieces : List (String × CompiledLookup)}
      (several : state.mergeGroup? entry.2 = some pieces)
      (behind : pieces.head?.map Prod.fst ≠ some entry.1) :
      MergeStep state merging entry
        { merging with
          merged := ⟨merging.merged.blocks, merging.merged.labels.insert entry.1 none⟩ }

/-- Merging an entry comes to a result, in one of these ways. -/
theorem exists_mergeStep
    (state : Compilation)
    (merging : Merging)
    (entry : String × CompiledLookup) :
    ∃ log next, state.mergeLookup merging entry = ⟨log, .ok next⟩
      ∧ MergeStep state merging entry next := by
  unfold mergeLookup
  dsimp only
  cases several : state.mergeGroup? entry.2 with
  | none => exact ⟨[], _, rfl, .alone several⟩
  | some pieces =>
      dsimp only
      split
      · rename_i head
        obtain ⟨log, reported⟩ := reportFlags_eq_ok entry.2 ((pieces.drop 1).map Prod.snd)
        exact ⟨_, _, Outcome.bind_eq_ok_iff.mpr ⟨_, (), log, rfl,
          Outcome.bind_eq_ok_iff.mpr ⟨log, (), [], reported, rfl, (List.append_nil log).symm⟩,
          rfl⟩, .first several head rfl⟩
      · rename_i behind
        exact ⟨[], _, rfl, .later several behind⟩

/-- One more entry of the table. -/
theorem Places.mergeLookup
    {places : List CompiledLookup}
    {merging : Merging}
    {lookup : CompiledLookup}
    (run : Places state places merging)
    (own : KeysOwn state.lookups)
    (present : lookup ∈ state.lookups.values)
    (fresh : lookup.key ∉ places.map CompiledLookup.key) :
    ∃ log next,
      state.mergeLookup merging (lookup.key, lookup) = ⟨log, .ok next⟩
        ∧ Places state (places ++ [lookup]) next := by
  obtain ⟨log, next, result, step⟩ := exists_mergeStep state merging (lookup.key, lookup)
  refine ⟨log, next, result, ?_⟩
  cases step with
  | alone single =>
      have found := groupAt?_of_mergeGroup?_none present single
      have more := run.snoc fresh (.refl _) id fun group same => by
        rw [found] at same
        cases same
        exact namesKnown_singleton _ lookup
      simp only [labelAt, found, Option.map_some, Option.toList_some, blockFor] at more
      exact more
  | first several head identified =>
      subst identified
      have found := groupAt?_of_mergeGroup?_some own present several
      rw [if_pos head] at found
      obtain ⟨second, others, rest, found⟩ := found
      have more := run.snoc fresh (IdentifierPool.grows_identify _ lookup.id.base)
        (fun distinct => distinct.identify _) fun group same => by
          rw [found] at same
          cases same
          intro _ _ _ shape
          cases shape
          exact IdentifierPool.knows_identify _ _
      simp only [labelAt, found, Option.map_some, Option.toList_some, blockFor, mergedBlock,
        ← IdentifierPool.identify_fst] at more
      rw [rest]
      exact more
  | later several behind =>
      have found := groupAt?_of_mergeGroup?_some own present several
      rw [if_neg behind] at found
      have more := run.snoc fresh (.refl _) id fun group same => by
        rw [found] at same
        cases same
      simp only [labelAt, found, Option.map_none, Option.toList_none, List.append_nil] at more
      exact more

/-- All entries that are left, one after the other. -/
theorem Places.mergeLookups
    {places rest : List CompiledLookup}
    {merging : Merging}
    (run : Places state places merging)
    (own : KeysOwn state.lookups)
    (present : ∀ lookup ∈ rest, lookup ∈ state.lookups.values)
    (fresh : ((places ++ rest).map CompiledLookup.key).Nodup) :
    ∃ log last,
      (rest.map fun lookup => (lookup.key, lookup)).foldlM state.mergeLookup merging =
          ⟨log, .ok last⟩
        ∧ Places state (places ++ rest) last := by
  induction rest generalizing places merging with
  | nil => exact ⟨[], merging, rfl, by simpa using run⟩
  | cons lookup rest ih =>
      have new : lookup.key ∉ places.map CompiledLookup.key := by
        rw [List.map_append, List.nodup_append] at fresh
        exact fun inside => fresh.2.2 _ inside _ (List.mem_cons_self ..) rfl
      obtain ⟨log, next, step, more⟩ :=
        run.mergeLookup own (present lookup (List.mem_cons_self ..)) new
      obtain ⟨later, last, steps, all⟩ := ih more
        (fun other member => present other (List.mem_cons_of_mem _ member))
        (by simpa using fresh)
      refine ⟨log ++ later, last, ?_, by simpa using all⟩
      exact Outcome.bind_eq_ok_iff.mpr ⟨log, next, later, step, steps, rfl⟩

theorem reportStrayPieces_eq_ok (state : Compilation) :
    ∃ log, state.reportStrayPieces = ⟨log, .ok ()⟩ := by
  unfold reportStrayPieces
  induction state.lookups.values with
  | nil => exact ⟨[], rfl⟩
  | cons lookup rest ih =>
      obtain ⟨log, reported⟩ := ih
      exact ⟨_, Outcome.bind_eq_ok_iff.mpr
        ⟨_, (), log, Outcome.tellIf_eq_ok _ _, reported, rfl⟩⟩

/-- The lookups of a feature file, as they come out of merging. -/
structure Merged (state : Compilation) (pool : IdentifierPool) (merged : MergedLookups) : Prop where
  grows : state.labels.Grows pool
  distinct : state.labels.Distinct → pool.Distinct
  known : ∀ group ∈ groups state.lookups.values, NamesKnown pool group
  /-- There is one block for each group. -/
  blocks_eq : merged.blocks = (groups state.lookups.values).map (blockFor pool.identifierOf)
  /-- Each lookup is referred to by the name of the block at its place. -/
  entries_eq : merged.labels.entries = state.lookups.values.map fun lookup =>
    (lookup.key, labelAt pool state.lookups.values lookup)

/-- Merging comes to a result, which has a block for each group. -/
theorem merged_of_keysOwn (own : KeysOwn state.lookups) :
    ∃ log merged pool, state.merge = ⟨log, .ok merged⟩ ∧ Merged state pool merged := by
  obtain ⟨before, reported⟩ := reportStrayPieces_eq_ok state
  obtain ⟨log, last, steps, run⟩ := (places_nil state).mergeLookups own
    (fun lookup member => member) (by simpa using nodup_keys_of_keysOwn own)
  rw [← entries_eq_of_keysOwn own] at steps
  rw [List.nil_append] at run
  refine ⟨before ++ log, last.merged, last.labels, ?_,
    ⟨run.grows, run.distinct, run.known, run.blocks_eq, run.entries_eq⟩⟩
  refine Outcome.bind_eq_ok_iff.mpr ⟨before, (), log, reported, ?_, rfl⟩
  exact Outcome.bind_eq_ok_iff.mpr ⟨log, last, [], steps, rfl, (List.append_nil log).symm⟩

end Compilation
end GlyphLayout
