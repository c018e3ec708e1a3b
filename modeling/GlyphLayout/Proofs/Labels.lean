import GlyphLayout.Proofs.FeatureNames

/-!
# Labels that name one block

A label in a feature or in a contextual rule should name exactly one block.  Identifiers never
stand in the way, so this depends on the names alone: merged pieces must not get the name of a
lookup with a block of its own, and the helper that a lookup applies must still be there.
-/

namespace GlyphLayout

open Feature (Document FeatureBlock LanguageSystem Rule)
open Source (Statement)

namespace Feature
namespace Document

/-- The labels of the lookup blocks of a feature file. -/
def labels (document : Document) : List String :=
  document.lookups.map (·.name)

/-- The labels that the rules and the features of a feature file refer to. -/
def references (document : Document) : List String :=
  (document.lookups.flatMap fun block => block.rules.flatMap Rule.references)
    ++ document.features.flatMap FeatureBlock.references

/-- No two blocks have one label, and every reference names exactly one block. -/
def Unambiguous (document : Document) : Prop :=
  document.labels.Nodup ∧ ∀ label ∈ document.references, document.labels.count label = 1

instance (document : Document) : Decidable document.Unambiguous :=
  inferInstanceAs (Decidable (_ ∧ _))

end Document
end Feature

namespace Compilation

variable {drafts : List CompiledLookup} {pool : IdentifierPool} {merged : MergedLookups}
  {state : Compilation}

/-! ## References to names -/

theorem nodup_map_identifierOf_iff
    {names : List String}
    (distinct : pool.Distinct)
    (known : ∀ name ∈ names, pool.Knows name) :
    (names.map pool.identifierOf).Nodup ↔ names.Nodup := by
  refine ⟨List.Nodup.of_map _, fun nodup => ?_⟩
  apply nodup.map_on
  intro first inFirst second inSecond same
  exact distinct.eq_of_identifierOf_eq (known first inFirst) (known second inSecond) same

theorem mem_map_identifierOf_iff
    {names : List String}
    {name : String}
    (distinct : pool.Distinct)
    (known : ∀ name ∈ names, pool.Knows name)
    (knownName : pool.Knows name) :
    pool.identifierOf name ∈ names.map pool.identifierOf ↔ name ∈ names := by
  constructor
  · intro member
    obtain ⟨other, inside, same⟩ := List.mem_map.mp member
    exact distinct.eq_of_identifierOf_eq (known other inside) knownName same ▸ inside
  · exact fun member => List.mem_map_of_mem member

theorem Labelled.labels_eq (labelled : Labelled drafts pool merged) :
    merged.blocks.map (·.name) = (blockNames drafts).map pool.identifierOf := by
  rw [labelled.blocks_eq, blockNames, List.map_map, List.map_map]
  apply List.map_congr_left
  intro group member
  have called := name_blockFor fun draft inside =>
    labelled.isDraft draft (mem_of_mem_groups member inside)
  exact congrArg pool.identifierOf called

/-- The labels of a feature file agree with themselves: each stands for the name of a block. -/
theorem Labelled.agree (labelled : Labelled drafts pool merged) :
    MergedLookups.Agree pool.identifierOf pool.identifierOf (blockNames drafts) merged merged := by
  have known := labelled.knows_of_mem_blockNames
  have apart : ∀ name ∈ blockNames drafts, ∀ another ∈ blockNames drafts,
      pool.identifierOf name = pool.identifierOf another → name = another :=
    fun name inside another other same =>
      labelled.distinct.eq_of_identifierOf_eq (known name inside) (known another other) same
  refine ⟨apart, apart, fun key label found => ?_⟩
  obtain ⟨draft, present, _, rfl⟩ := labelled.get?_labels.mp found
  refine ⟨(groupAt? drafts draft).map blockName, ?_, by rw [Option.map_map]; rfl, ?_⟩
  · intro name member
    obtain ⟨group, place, rfl⟩ := Option.map_eq_some_iff.mp member
    exact mem_blockNames_of_groupAt? present place
  · rw [found, Option.map_map]
    rfl

/-- The references of the rules of all blocks are those of the drafts, under identifiers. -/
theorem Labelled.mem_ruleReferences_iff
    (labelled : Labelled drafts pool merged)
    {label : String} :
    label ∈ (merged.blocks.flatMap fun block => block.rules.flatMap Rule.references) ↔
      ∃ draft ∈ drafts, ∃ rule ∈ draft.rules, ∃ name ∈ rule.references,
        pool.identifierOf name = label := by
  have each : ∀ group ∈ groups drafts,
      ((blockFor id group).relabel pool.identifierOf).rules.flatMap Rule.references =
        group.flatMap fun draft =>
          draft.rules.flatMap fun rule => rule.references.map pool.identifierOf := by
    intro group _
    simp only [Feature.Lookup.relabel, List.flatMap_map, Rule.references_relabel]
    rw [← List.map_flatMap, references_blockFor, List.map_flatMap]
    exact List.flatMap_congr fun draft _ => List.map_flatMap ..
  rw [labelled.blocks_eq, List.flatMap_map]
  constructor
  · intro member
    obtain ⟨group, inside, within⟩ := List.mem_flatMap.mp member
    rw [each group inside] at within
    obtain ⟨draft, held, within⟩ := List.mem_flatMap.mp within
    obtain ⟨rule, present, within⟩ := List.mem_flatMap.mp within
    obtain ⟨name, refers, same⟩ := List.mem_map.mp within
    exact ⟨draft, mem_of_mem_groups inside held, rule, present, name, refers, same⟩
  · rintro ⟨draft, held, rule, present, name, refers, rfl⟩
    obtain ⟨group, inside, member⟩ := exists_group held
    refine List.mem_flatMap.mpr ⟨group, inside, ?_⟩
    rw [each group inside]
    refine List.mem_flatMap.mpr ⟨draft, member, List.mem_flatMap.mpr ⟨rule, present, ?_⟩⟩
    exact List.mem_map_of_mem refers

/-- Labels are as unambiguous as the names that they stand for. -/
theorem Labelled.unambiguous_iff
    (labelled : Labelled drafts pool merged)
    {features : LanguageSystems}
    {log : List Notice}
    {document : Document}
    (lookups_eq : document.lookups = merged.blocks)
    (resolved : merged.featureBlocks features = ⟨log, .ok document.features⟩) :
    document.Unambiguous ↔ (blockNames drafts).Nodup ∧
      ∀ draft ∈ drafts, ∀ rule ∈ draft.rules, ∀ name ∈ rule.references,
        name ∈ blockNames drafts := by
  have known := labelled.knows_of_mem_blockNames
  have labels_eq : document.labels = (blockNames drafts).map pool.identifierOf := by
    rw [Document.labels, lookups_eq, labelled.labels_eq]
  obtain ⟨_, common, _, features_eq, inside⟩ := labelled.agree.featureBlocks resolved
  have knownName {draft : CompiledLookup} (held : draft ∈ drafts) {rule : Rule}
      (present : rule ∈ draft.rules) {name : String} (refers : name ∈ rule.references) :
      pool.Knows name := by
    refine labelled.known draft held name (List.mem_cons_of_mem _ ?_)
    exact List.mem_flatMap.mpr ⟨rule, present, refers⟩
  rw [Document.Unambiguous, labels_eq, nodup_map_identifierOf_iff labelled.distinct known]
  apply and_congr_right
  intro nodup
  have nodupLabels := (nodup_map_identifierOf_iff labelled.distinct known).mpr nodup
  constructor
  · intro once draft held rule present name refers
    rw [← mem_map_identifierOf_iff labelled.distinct known (knownName held present refers)]
    apply List.count_pos_iff.mp
    rw [once (pool.identifierOf name) ?_]
    · exact Nat.one_pos
    · apply List.mem_append_left _
      rw [lookups_eq]
      exact labelled.mem_ruleReferences_iff.mpr ⟨draft, held, rule, present, name, refers, rfl⟩
  · intro covered label member
    apply List.count_eq_one_of_mem nodupLabels
    rcases List.mem_append.mp member with inRule | inFeature
    · rw [lookups_eq] at inRule
      obtain ⟨draft, held, rule, present, name, refers, rfl⟩ :=
        labelled.mem_ruleReferences_iff.mp inRule
      exact List.mem_map_of_mem (covered draft held rule present name refers)
    · rw [features_eq] at inFeature
      obtain ⟨feature, present, within⟩ := List.mem_flatMap.mp inFeature
      obtain ⟨named, original, rfl⟩ := List.mem_map.mp present
      rw [FeatureBlock.references_relabel] at within
      obtain ⟨name, refers, rfl⟩ := List.mem_map.mp within
      exact List.mem_map_of_mem (inside named original name refers)

/-! ## Names that stay apart -/

/-- The lookup has a block of its own. -/
def HasOwnBlock (state : Compilation) (lookup : CompiledLookup) : Prop :=
  lookup ∈ state.lookups.values ∧ state.mergeGroup? lookup = none

/-- The lookup is the first of several pieces, which share a block. -/
def LeadsBlock (state : Compilation) (first : CompiledLookup) : Prop :=
  ∃ base key rest, state.piecesOf base = (key, first) :: rest ∧ rest ≠ []

/-- The names that blocks are labelled after stay apart, and the ones that rules need are there. -/
structure NamesApart (state : Compilation) : Prop where
  /-- No lookup with a block of its own has the name that some merged pieces are given. -/
  baseFree : ∀ lookup first, state.HasOwnBlock lookup → state.LeadsBlock first →
    lookup.sourceName ≠ first.id.base
  /-- The helper that a lookup applies, or one with its exact name, still has a block. -/
  helperKept : ∀ lookup ∈ state.lookups.values, (∃ rule ∈ lookup.rules, rule.references ≠ []) →
    (∃ other, state.HasOwnBlock other ∧ other.sourceName = helperName lookup.sourceName)
      ∨ ∃ first, state.LeadsBlock first ∧ first.id.base = helperName lookup.sourceName

theorem singleton_mem_groups_iff
    (own : KeysOwn state.lookups)
    {lookup : CompiledLookup} :
    [lookup] ∈ groups state.lookups.values ↔ state.HasOwnBlock lookup := by
  constructor
  · intro member
    obtain ⟨place, present, found⟩ := List.mem_filterMap.mp member
    have same := head?_of_groupAt? found
    rw [List.head?_cons, Option.some.injEq] at same
    subst same
    refine ⟨present, ?_⟩
    cases several : state.mergeGroup? lookup with
    | none => rfl
    | some pieces =>
        have shape := groupAt?_of_mergeGroup?_some own present several
        rw [found] at shape
        split at shape
        · obtain ⟨_, _, _, more⟩ := shape
          cases more
        · cases shape
  · rintro ⟨present, alone⟩
    exact List.mem_filterMap.mpr ⟨lookup, present, groupAt?_of_mergeGroup?_none present alone⟩

theorem cons_cons_mem_groups_iff {first : CompiledLookup} :
    (∃ second others, first :: second :: others ∈ groups state.lookups.values) ↔
      state.LeadsBlock first := by
  constructor
  · rintro ⟨second, others, member⟩
    obtain ⟨place, _, found⟩ := List.mem_filterMap.mp member
    rcases eq_of_groupAt? found with ⟨_, single⟩ | ⟨base, _, shape, _⟩
    · cases single
    · rw [← map_snd_piecesOf] at shape
      match pieces : state.piecesOf base with
      | [] => simp [pieces] at shape
      | [_] => simp [pieces] at shape
      | (key, lookup) :: entry :: rest =>
          rw [pieces, List.map_cons, List.cons.injEq] at shape
          refine ⟨base, key, entry :: rest, ?_, List.cons_ne_nil _ _⟩
          rw [pieces, shape.1]
  · rintro ⟨base, key, rest, pieces, some⟩
    obtain ⟨entry, others, rfl⟩ := List.exists_cons_of_ne_nil some
    have shape := map_snd_piecesOf state base
    rw [pieces, List.map_cons, List.map_cons] at shape
    obtain ⟨present, piece⟩ := mem_piecesAmong.mp (shape ▸ List.mem_cons_self ..)
    refine ⟨entry.2, others.map Prod.snd, List.mem_filterMap.mpr ⟨first, present, ?_⟩⟩
    simp [groupAt?, piece, ← shape]

/-- Only a lookup with a block of its own can have the name that merged pieces are given. -/
theorem nodup_blockNames_iff
    {lookups : List CompiledLookup}
    (distinct : (lookups.map CompiledLookup.key).Nodup) :
    (blockNames lookups).Nodup ↔
      ∀ lookup first second others, [lookup] ∈ groups lookups →
        first :: second :: others ∈ groups lookups → lookup.sourceName ≠ first.id.base := by
  constructor
  · intro nodup lookup first second others single several same
    have equal := List.inj_on_of_nodup_map nodup single several same
    cases equal
  · intro free
    have nodup : lookups.Nodup := distinct.of_map _
    rw [blockNames, List.Nodup, List.pairwise_map, groups, List.pairwise_filterMap]
    apply nodup.imp_of_mem
    intro first second firstPresent secondPresent different firstGroup firstFound secondGroup
      secondFound same
    have firstHead := head?_of_groupAt? firstFound
    have secondHead := head?_of_groupAt? secondFound
    have firstIn : firstGroup ∈ groups lookups :=
      List.mem_filterMap.mpr ⟨first, firstPresent, firstFound⟩
    have secondIn : secondGroup ∈ groups lookups :=
      List.mem_filterMap.mpr ⟨second, secondPresent, secondFound⟩
    rcases firstGroup with _ | ⟨_, _ | ⟨_, _⟩⟩
    · cases firstHead
    · cases firstHead
      rcases secondGroup with _ | ⟨_, _ | ⟨_, _⟩⟩
      · cases secondHead
      · cases secondHead
        refine different (List.inj_on_of_nodup_map distinct firstPresent secondPresent ?_)
        exact congrArg Text.lowercase same
      · exact free _ _ _ _ firstIn secondIn same
    · cases firstHead
      rcases secondGroup with _ | ⟨_, _ | ⟨_, _⟩⟩
      · cases secondHead
      · exact free _ _ _ _ secondIn firstIn same.symm
      · cases secondHead
        rcases eq_of_groupAt? firstFound with ⟨_, single⟩ | ⟨base, piece, shape, head⟩
        · cases single
        rcases eq_of_groupAt? secondFound with ⟨_, single⟩ | ⟨again, secondPiece, later, last⟩
        · cases single
        have bases : base = again := by
          rw [← (pieceGroup?_eq_some_iff.mp piece).2.2,
            ← (pieceGroup?_eq_some_iff.mp secondPiece).2.2]
          exact congrArg Text.lowercase same
        rw [← bases, ← shape] at later
        exact different (List.cons.inj later.symm).1

theorem mem_blockNames_iff (own : KeysOwn state.lookups) {name : String} :
    name ∈ blockNames state.lookups.values ↔
      (∃ other, state.HasOwnBlock other ∧ other.sourceName = name)
        ∨ ∃ first, state.LeadsBlock first ∧ first.id.base = name := by
  constructor
  · intro member
    obtain ⟨group, inside, rfl⟩ := List.mem_map.mp member
    match group with
    | [] => exact (ne_nil_of_mem_groups inside rfl).elim
    | [other] => exact .inl ⟨other, (singleton_mem_groups_iff own).mp inside, rfl⟩
    | first :: second :: others =>
        exact .inr ⟨first, cons_cons_mem_groups_iff.mp ⟨second, others, inside⟩, rfl⟩
  · rintro (⟨other, alone, rfl⟩ | ⟨first, leads, rfl⟩)
    · exact List.mem_map.mpr ⟨[other], (singleton_mem_groups_iff own).mpr alone, rfl⟩
    · obtain ⟨second, others, inside⟩ := cons_cons_mem_groups_iff.mpr leads
      exact List.mem_map.mpr ⟨_, inside, rfl⟩

theorem blockNames_relabel
    {rename : String → String}
    (distinct : (drafts.map CompiledLookup.key).Nodup) :
    blockNames (drafts.map (CompiledLookup.relabel rename)) = blockNames drafts := by
  rw [blockNames, blockNames, groups_relabel _ distinct, List.map_map]
  exact List.map_congr_left fun group _ => blockName_relabel group

/-- The condition on the compiled lookups, in terms of the drafts behind them. -/
theorem namesApart_iff
    {rename : String → String}
    (own : KeysOwn state.lookups)
    (values : state.lookups.values = drafts.map (CompiledLookup.relabel rename))
    (distinct : (drafts.map CompiledLookup.key).Nodup)
    (isDraft : ∀ draft ∈ drafts, IsDraft draft) :
    NamesApart state ↔ (blockNames drafts).Nodup ∧
      ∀ draft ∈ drafts, ∀ rule ∈ draft.rules, ∀ name ∈ rule.references,
        name ∈ blockNames drafts := by
  have names : blockNames state.lookups.values = blockNames drafts := by
    rw [values, blockNames_relabel distinct]
  rw [← names, nodup_blockNames_iff (nodup_keys_of_keysOwn own)]
  constructor
  · intro apart
    constructor
    · intro lookup first second others single several
      exact apart.baseFree lookup first ((singleton_mem_groups_iff own).mp single)
        (cons_cons_mem_groups_iff.mp ⟨second, others, several⟩)
    · intro draft held rule present name refers
      rw [(isDraft draft held).references_eq rule present name refers]
      apply (mem_blockNames_iff own).mpr
      apply apart.helperKept (draft.relabel rename) (values ▸ List.mem_map_of_mem held)
      refine ⟨rule.relabel rename, List.mem_map_of_mem present, ?_⟩
      rw [Rule.references_relabel]
      exact List.ne_nil_of_mem (List.mem_map_of_mem refers)
  · rintro ⟨free, covered⟩
    constructor
    · intro lookup first single leads
      obtain ⟨second, others, several⟩ := cons_cons_mem_groups_iff.mpr leads
      exact free lookup first second others ((singleton_mem_groups_iff own).mpr single) several
    · rintro lookup present ⟨rule, inside, refers⟩
      rw [values] at present
      obtain ⟨draft, held, rfl⟩ := List.mem_map.mp present
      obtain ⟨original, within, rfl⟩ := List.mem_map.mp inside
      rw [Rule.references_relabel, Ne, List.map_eq_nil_iff] at refers
      obtain ⟨name, rest, shape⟩ := List.exists_cons_of_ne_nil refers
      have member : name ∈ original.references := shape ▸ List.mem_cons_self ..
      apply (mem_blockNames_iff own).mp
      rw [CompiledLookup.sourceName_relabel,
        ← (isDraft draft held).references_eq original within name member]
      exact covered draft held original within name member

end Compilation

/-! ## Conversions -/

open Compilation

/--
The labels of a converted project are unambiguous exactly when the names of its compiled
lookups stay apart.
-/
theorem convert_unambiguous_iff
    {statements : List Statement}
    {glyphOrder : Option GlyphOrder}
    {options : Options}
    {log : List Notice}
    {document : Document}
    (converted : convert statements glyphOrder options = ⟨log, .ok document⟩) :
    ∃ definitions state,
      (Definitions.collect statements glyphOrder).result = .ok definitions
        ∧ (ofStatements definitions options statements).result = .ok state
        ∧ (document.Unambiguous ↔ NamesApart state) := by
  obtain ⟨_, definitions, _, state, _, merged, _, collected, compiled, mergedOk, resolved,
    lookups_eq, _⟩ := of_convert converted
  obtain ⟨translations, related, entered⟩ := entered_of_ofStatements compiled
  obtain ⟨_, again, pool, same, values, labelled⟩ := labelled_of_entered related entered
  rw [mergedOk] at same
  cases same
  have own := keysOwn_of_entered entered
  refine ⟨definitions, state, by rw [collected], by rw [compiled], ?_⟩
  rw [labelled.unambiguous_iff lookups_eq resolved,
    namesApart_iff own values labelled.keys_nodup labelled.isDraft]

/-- A contextual lookup, which needs a helper, and two pieces that are merged. -/
def helperAndPieces : List Statement :=
  [kernFeature ["space", "kern\\1"], spacing "space", kerning "kern\\1" [("A", "V")],
    kerning "kern\\2" [("T", "V")]]

theorem convert_unambiguous_iff_helperAndPieces :
    ∃ log document, convert helperAndPieces none {} = ⟨log, .ok document⟩
      ∧ document.labels = ["space_target", "space", "kern"]
      ∧ document.references = ["space_target", "space", "kern"]
      ∧ ∃ definitions state,
          (Definitions.collect helperAndPieces none).result = .ok definitions
            ∧ (ofStatements definitions {} helperAndPieces).result = .ok state
            ∧ document.Unambiguous ∧ NamesApart state := by
  have labels : (convert helperAndPieces none {}).result.toOption.map Document.labels =
      some ["space_target", "space", "kern"] := by
    decide +kernel
  have references : (convert helperAndPieces none {}).result.toOption.map Document.references =
      some ["space_target", "space", "kern"] := by
    decide +kernel
  obtain ⟨log, document, converted⟩ : ∃ log document,
      convert helperAndPieces none {} = ⟨log, .ok document⟩ :=
    Outcome.exists_of_isOk (by decide +kernel)
  simp only [converted, Except.toOption, Option.map_some, Option.some.injEq] at labels references
  have unambiguous : document.Unambiguous := by
    rw [Document.Unambiguous, labels, references]
    decide
  obtain ⟨definitions, state, collected, compiled, iff⟩ := convert_unambiguous_iff converted
  exact ⟨log, document, converted, labels, references, definitions, state, collected, compiled,
    unambiguous, iff.mp unambiguous⟩

/-- A lookup that has the name of two others that are pieces. -/
def nameOfPieces : List Statement :=
  [kernFeature ["kern", "kern\\1"], kerning "kern" [("A", "V")], kerning "kern\\1" [("L", "Y")],
    kerning "kern\\2" [("T", "Y")]]

/-- Merged pieces may be labelled like a lookup that has their name. -/
theorem exists_not_unambiguous :
    ¬ ∀ (statements : List Statement) (glyphOrder : Option GlyphOrder) (options : Options)
      (log : List Notice) (document : Document),
      convert statements glyphOrder options = ⟨log, .ok document⟩ → document.Unambiguous := by
  intro always
  have labels : (convert nameOfPieces none {}).result.toOption.map Document.labels =
      some ["kern", "kern"] := by
    decide +kernel
  obtain ⟨log, document, converted⟩ : ∃ log document,
      convert nameOfPieces none {} = ⟨log, .ok document⟩ :=
    Outcome.exists_of_isOk (by decide +kernel)
  simp only [converted, Except.toOption, Option.map_some, Option.some.injEq] at labels
  have unambiguous := always nameOfPieces none {} log document converted
  rw [Document.Unambiguous, labels] at unambiguous
  exact absurd unambiguous.1 (by decide)

end GlyphLayout
