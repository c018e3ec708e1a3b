import GlyphLayout.Conversion
import GlyphLayout.Proofs.Merging

/-!
# Names in place of identifiers

The lookups of a feature file depend on the pool of identifiers in one way only: every label
is the identifier of a name that has been chosen without the pool.  So the feature file is a
renaming of what the translations alone determine, and the renaming keeps names apart.
-/

namespace GlyphLayout

open Feature (FeatureBlock LanguageSystem Rule)
open Source (LookupDefinition Statement)

namespace Feature

/-- The block with its name and its references renamed. -/
def Lookup.relabel (rename : String → String) (block : Lookup) : Lookup :=
  { block with
    name := rename block.name
    rules := block.rules.map (Rule.relabel rename) }

/-- The language system with its references renamed. -/
def LanguageSystem.relabel (rename : String → String) (system : LanguageSystem) :
    LanguageSystem :=
  { system with lookups := system.lookups.map rename }

/-- The feature with its references renamed. -/
def FeatureBlock.relabel (rename : String → String) (feature : FeatureBlock) : FeatureBlock :=
  { feature with systems := feature.systems.map (LanguageSystem.relabel rename) }

end Feature

namespace Compilation

variable {definitions : Definitions} {options : Options} {rename : String → String}

/-! ## Tables under a renaming -/

/-- A table of renamed lookups is the renamed table. -/
theorem entries_enter_relabel
    {table renamed : OrderedMap String CompiledLookup}
    {added : List CompiledLookup}
    (start : renamed.entries = table.entries.map (Prod.map id (CompiledLookup.relabel rename))) :
    (enter renamed (added.map (CompiledLookup.relabel rename))).entries =
      (enter table added).entries.map (Prod.map id (CompiledLookup.relabel rename)) := by
  induction added generalizing table renamed with
  | nil => exact start
  | cons lookup added ih =>
      apply ih
      change OrderedMap.put _ _ renamed.entries = _
      rw [start]
      exact OrderedMap.put_map ..

theorem values_enter_relabel {added : List CompiledLookup} :
    (enter ∅ (added.map (CompiledLookup.relabel rename))).values =
      (enter ∅ added).values.map (CompiledLookup.relabel rename) := by
  have same : (enter ∅ (added.map (CompiledLookup.relabel rename))).entries =
      (enter ∅ added).entries.map (Prod.map id (CompiledLookup.relabel rename)) :=
    entries_enter_relabel rfl
  rw [OrderedMap.values, same, OrderedMap.values,
    List.map_map, List.map_map]
  rfl

/-! ## Groups under a renaming -/

theorem piecesAmong_relabel (lookups : List CompiledLookup) (name : String) :
    piecesAmong (lookups.map (CompiledLookup.relabel rename)) name =
      (piecesAmong lookups name).map (CompiledLookup.relabel rename) := by
  rw [piecesAmong, List.filter_map]
  rfl

theorem groupAt?_relabel
    {lookups : List CompiledLookup}
    {lookup : CompiledLookup}
    (distinct : (lookups.map CompiledLookup.key).Nodup)
    (present : lookup ∈ lookups) :
    groupAt? (lookups.map (CompiledLookup.relabel rename)) (lookup.relabel rename) =
      (groupAt? lookups lookup).map (List.map (CompiledLookup.relabel rename)) := by
  unfold groupAt?
  rw [show pieceGroup? (lookup.relabel rename) = pieceGroup? lookup from rfl]
  cases piece : pieceGroup? lookup with
  | none => rfl
  | some name =>
      simp only [piecesAmong_relabel, List.head?_map]
      have same : (piecesAmong lookups name).head?.map (CompiledLookup.relabel rename) =
          some (lookup.relabel rename) ↔ (piecesAmong lookups name).head? = some lookup := by
        cases shape : piecesAmong lookups name with
        | nil => simp
        | cons first rest =>
            have firstPresent := (mem_piecesAmong.mp (shape ▸ List.mem_cons_self ..)).1
            rw [List.head?_cons, Option.map_some, Option.some.injEq, Option.some.injEq]
            constructor
            · intro equal
              have keys := congrArg CompiledLookup.key equal
              rw [CompiledLookup.key_relabel, CompiledLookup.key_relabel] at keys
              exact List.inj_on_of_nodup_map distinct firstPresent present keys
            · exact congrArg _
      by_cases first : (piecesAmong lookups name).head? = some lookup
      · rw [if_pos (same.mpr first), if_pos first]
        rfl
      · rw [if_neg (fun equal => first (same.mp equal)), if_neg first]
        rfl

theorem groups_relabel
    (rename : String → String)
    {lookups : List CompiledLookup}
    (distinct : (lookups.map CompiledLookup.key).Nodup) :
    groups (lookups.map (CompiledLookup.relabel rename)) =
      (groups lookups).map (List.map (CompiledLookup.relabel rename)) := by
  rw [groups, groups, List.filterMap_map, List.map_filterMap]
  exact List.filterMap_congr fun lookup present => groupAt?_relabel distinct present

/-! ## Blocks under a renaming -/

theorem map_relabel_flagRules (lookup : CompiledLookup) :
    lookup.flagRules.map (Rule.relabel rename) = lookup.flagRules := by
  unfold CompiledLookup.flagRules
  split <;> rfl

theorem map_relabel_commentRules (lookup : CompiledLookup) :
    lookup.commentRules.map (Rule.relabel rename) = lookup.commentRules := by
  rw [CompiledLookup.commentRules, List.map_map]
  rfl

theorem pieceRules_relabel (piece : CompiledLookup) :
    pieceRules (piece.relabel rename) = (pieceRules piece).map (Rule.relabel rename) := by
  simp only [pieceRules, List.map_cons, List.map_append, map_relabel_commentRules]
  rfl

theorem block_relabel (lookup : CompiledLookup) :
    (lookup.relabel rename).block = lookup.block.relabel rename := by
  simp only [CompiledLookup.block, Feature.Lookup.relabel, List.map_append,
    map_relabel_commentRules, map_relabel_flagRules]
  rfl

theorem mergedBlock_relabel
    (name : String)
    (first : CompiledLookup)
    (others : List CompiledLookup) :
    mergedBlock (rename name) (first.relabel rename)
        (others.map (CompiledLookup.relabel rename)) =
      (mergedBlock name first others).relabel rename := by
  simp only [mergedBlock, Feature.Lookup.relabel, List.map_append, map_relabel_flagRules,
    pieceRules_relabel, List.flatMap_map, List.map_flatMap, List.map_cons, List.any_cons,
    List.any_map]
  rfl

/-- The block for renamed lookups is the renamed block. -/
theorem blockFor_relabel
    {group : List CompiledLookup}
    (some : group ≠ []) :
    blockFor rename (group.map (CompiledLookup.relabel rename)) =
      (blockFor id group).relabel rename := by
  match group with
  | [] => exact (some rfl).elim
  | [lookup] => exact block_relabel lookup
  | first :: second :: others =>
      exact mergedBlock_relabel first.id.base first (second :: others)

/-- The name of the block for a group: the one of the lookup, or the one that pieces share. -/
def blockName : List CompiledLookup → String
  | [] => ""
  | [lookup] => lookup.sourceName
  | first :: _ => first.id.base

@[simp] theorem blockName_relabel (group : List CompiledLookup) :
    blockName (group.map (CompiledLookup.relabel rename)) = blockName group := by
  match group with
  | [] => rfl
  | [_] => rfl
  | _ :: _ :: _ => rfl

/-- The block for some drafts is called by its name, in place of an identifier. -/
theorem name_blockFor
    {group : List CompiledLookup}
    (isDraft : ∀ draft ∈ group, IsDraft draft) :
    (blockFor id group).name = blockName group := by
  match group with
  | [] => rfl
  | [draft] => exact (isDraft draft (List.mem_singleton_self _)).label_eq
  | _ :: _ :: _ => rfl

/-- The rules of a block that refer to something are rules of the lookups of its group. -/
theorem references_blockFor (group : List CompiledLookup) :
    (blockFor id group).rules.flatMap Rule.references =
      group.flatMap fun lookup => lookup.rules.flatMap Rule.references := by
  have flags (lookup : CompiledLookup) : lookup.flagRules.flatMap Rule.references = [] := by
    unfold CompiledLookup.flagRules
    split <;> rfl
  have comments (lookup : CompiledLookup) :
      lookup.commentRules.flatMap Rule.references = [] := by
    simp [CompiledLookup.commentRules, Rule.references]
  rcases group with _ | ⟨first, _ | ⟨second, others⟩⟩
  · rfl
  · simp [blockFor, CompiledLookup.block, flags, comments]
  · simp [blockFor, mergedBlock, pieceRules, flags, comments, List.flatMap_assoc,
      Rule.references]

/-! ## The names of a feature file -/

/-- A feature file's lookups are some drafts under the identifiers of a pool. -/
structure Labelled (drafts : List CompiledLookup) (pool : IdentifierPool)
    (merged : MergedLookups) : Prop where
  /-- Each draft has a key of its own. -/
  keys_nodup : (drafts.map CompiledLookup.key).Nodup
  isDraft : ∀ draft ∈ drafts, IsDraft draft
  distinct : pool.Distinct
  /-- Every name that a draft mentions has an identifier. -/
  known : ∀ draft ∈ drafts, ∀ name ∈ draft.mentions, pool.Knows name
  /-- So has every name of a block. -/
  blocksKnown : ∀ group ∈ groups drafts, pool.Knows (blockName group)
  blocks_eq : merged.blocks =
    (groups drafts).map fun group => (blockFor id group).relabel pool.identifierOf
  entries_eq : merged.labels.entries = drafts.map fun draft =>
    (draft.key, (groupAt? drafts draft).map fun group => pool.identifierOf (blockName group))

/-- The names of all blocks, in order. -/
def blockNames (lookups : List CompiledLookup) : List String :=
  (groups lookups).map blockName

section Labelled

variable {drafts : List CompiledLookup} {pool : IdentifierPool} {merged : MergedLookups}

theorem Labelled.knows_of_mem_blockNames
    (labelled : Labelled drafts pool merged) :
    ∀ name ∈ blockNames drafts, pool.Knows name := by
  intro name member
  obtain ⟨group, inside, rfl⟩ := List.mem_map.mp member
  exact labelled.blocksKnown group inside

theorem Labelled.get?_labels
    (labelled : Labelled drafts pool merged)
    {key : String}
    {label : Option String} :
    merged.labels.get? key = some label ↔
      ∃ draft ∈ drafts, draft.key = key
        ∧ ((groupAt? drafts draft).map fun group => pool.identifierOf (blockName group)) =
            label := by
  rw [OrderedMap.get?_eq_some_iff, labelled.entries_eq, List.mem_map]
  simp only [Prod.mk.injEq]

theorem mem_blockNames_of_groupAt?
    {draft : CompiledLookup}
    {group : List CompiledLookup}
    (present : draft ∈ drafts)
    (found : groupAt? drafts draft = some group) :
    blockName group ∈ blockNames drafts :=
  List.mem_map_of_mem (List.mem_filterMap.mpr ⟨draft, present, found⟩)

variable {state : Compilation}

/-- Drafts that have been renamed mention the names of their blocks. -/
theorem Merged.knows_blockName
    (facts : Merged state pool merged)
    (values : state.lookups.values = drafts.map (CompiledLookup.relabel pool.identifierOf))
    (keys_nodup : (drafts.map CompiledLookup.key).Nodup)
    (isDraft : ∀ draft ∈ drafts, IsDraft draft)
    (known : ∀ draft ∈ drafts, ∀ name ∈ draft.mentions, pool.Knows name) :
    ∀ group ∈ groups drafts, pool.Knows (blockName group) := by
  intro group member
  match group with
  | [] => exact (ne_nil_of_mem_groups member rfl).elim
  | [draft] =>
      have present := mem_of_mem_groups member (List.mem_singleton_self _)
      rw [blockName, ← (isDraft draft present).label_eq]
      exact known draft present _ (List.mem_cons_self ..)
  | first :: second :: others =>
      have inside : (first :: second :: others).map
          (CompiledLookup.relabel pool.identifierOf) ∈ groups state.lookups.values := by
        rw [values, groups_relabel pool.identifierOf keys_nodup]
        exact List.mem_map_of_mem member
      exact facts.known _ inside (first.relabel pool.identifierOf)
        (second.relabel pool.identifierOf) _ rfl

/-- A renamed draft is labelled by the name of the block for its group. -/
theorem labelAt_relabel
    {draft : CompiledLookup}
    (keys_nodup : (drafts.map CompiledLookup.key).Nodup)
    (isDraft : ∀ draft ∈ drafts, IsDraft draft)
    (member : draft ∈ drafts) :
    labelAt pool (drafts.map (CompiledLookup.relabel pool.identifierOf))
        (draft.relabel pool.identifierOf) =
      (groupAt? drafts draft).map fun group => pool.identifierOf (blockName group) := by
  rw [labelAt, groupAt?_relabel keys_nodup member, Option.map_map]
  apply Option.map_congr
  intro group found
  have place : group ∈ groups drafts := List.mem_filterMap.mpr ⟨draft, member, found⟩
  have called := name_blockFor fun draft inside => isDraft draft (mem_of_mem_groups place inside)
  rw [Function.comp_apply, blockFor_relabel (ne_nil_of_mem_groups place), ← called]
  rfl

/-- Merging labels drafts that have been renamed. -/
theorem Merged.labelled
    (facts : Merged state pool merged)
    (values : state.lookups.values = drafts.map (CompiledLookup.relabel pool.identifierOf))
    (keys_nodup : (drafts.map CompiledLookup.key).Nodup)
    (isDraft : ∀ draft ∈ drafts, IsDraft draft)
    (distinct : pool.Distinct)
    (known : ∀ draft ∈ drafts, ∀ name ∈ draft.mentions, pool.Knows name) :
    Labelled drafts pool merged where
  keys_nodup := keys_nodup
  isDraft := isDraft
  distinct := distinct
  known := known
  blocksKnown := facts.knows_blockName values keys_nodup isDraft known
  blocks_eq := by
    rw [facts.blocks_eq, values, groups_relabel pool.identifierOf keys_nodup, List.map_map]
    exact List.map_congr_left fun group member => blockFor_relabel (ne_nil_of_mem_groups member)
  entries_eq := by
    rw [facts.entries_eq, values, List.map_map]
    apply List.map_congr_left
    intro draft member
    exact congrArg (Prod.mk draft.key) (labelAt_relabel keys_nodup isDraft member)

end Labelled

/-- The lookups of a feature file are the drafts that have stayed in the table. -/
theorem labelled_of_entered
    {lookups : List LookupDefinition}
    {translations : List (List CompiledLookup)}
    {log : List Notice}
    {state : Compilation}
    (related : List.Forall₂ (Translates definitions options) lookups translations)
    (entered : Entered {} translations.flatten log state) :
    ∃ log merged pool, state.merge = ⟨log, .ok merged⟩
      ∧ state.lookups.values = (enter ∅ translations.flatten).values.map
          (CompiledLookup.relabel pool.identifierOf)
      ∧ Labelled (enter ∅ translations.flatten).values pool merged := by
  obtain ⟨log, merged, pool, result, facts⟩ := merged_of_keysOwn (keysOwn_of_entered entered)
  have values : state.lookups.values =
      (enter ∅ translations.flatten).values.map
        (CompiledLookup.relabel pool.identifierOf) := by
    rw [entered.lookups_eq, ← map_relabel_of_grows facts.grows entered.known]
    exact values_enter_relabel
  refine ⟨log, merged, pool, result, values, facts.labelled values ?_ ?_ ?_ ?_⟩
  · exact nodup_keys_of_keysOwn (keysOwn_enter_empty translations.flatten)
  · exact fun draft member =>
      isDraft_of_translates related draft (of_mem_values_enter_empty member)
  · exact facts.distinct (entered.distinct (IdentifierPool.distinct_empty _))
  · exact fun draft member name inside =>
      (entered.known draft (of_mem_values_enter_empty member) name inside).mono facts.grows

end Compilation

/-! ## Conversions -/

open Compilation
open Feature (Document)

/-- The parts of a conversion that comes to a result. -/
theorem of_convert
    {statements : List Statement}
    {glyphOrder : Option GlyphOrder}
    {options : Options}
    {log : List Notice}
    {document : Document}
    (converted : convert statements glyphOrder options = ⟨log, .ok document⟩) :
    ∃ collecting definitions compiling state merging merged assembling,
      Definitions.collect statements glyphOrder = ⟨collecting, .ok definitions⟩
        ∧ ofStatements definitions options statements = ⟨compiling, .ok state⟩
        ∧ state.merge = ⟨merging, .ok merged⟩
        ∧ merged.featureBlocks definitions.features = ⟨assembling, .ok document.features⟩
        ∧ document.lookups = merged.blocks
        ∧ compiling ⊆ log := by
  obtain ⟨collecting, definitions, later, collected, rest, whole⟩ :=
    Outcome.bind_eq_ok_iff.mp converted
  obtain ⟨compiling, state, last, compiled, rest, part⟩ := Outcome.bind_eq_ok_iff.mp rest
  obtain ⟨merging, merged, _, mergedOk, rest, _⟩ := Outcome.bind_eq_ok_iff.mp rest
  obtain ⟨assembling, features, _, resolved, same, _⟩ := Outcome.bind_eq_ok_iff.mp rest
  cases same
  refine ⟨collecting, definitions, compiling, state, merging, merged, assembling, collected,
    compiled, mergedOk, resolved, rfl, fun notice member => ?_⟩
  rw [whole, part]
  exact List.mem_append_right _ (List.mem_append_left _ member)

end GlyphLayout
