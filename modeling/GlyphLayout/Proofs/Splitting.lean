import GlyphLayout.Proofs.Collisions
import GlyphLayout.Proofs.Retention

/-!
# Splitting is invisible

A limit on the size of a subtable cuts lookups into pieces, and merging puts the pieces
together again.  The features of the project do the same as without a limit, unless a piece
is in the way of another lookup: by its name, or because the project has pieces of its own
that share its base.
-/

namespace GlyphLayout

open Feature (Behaviour Document FeatureBlock LanguageSystem Rule reach)
open Source (LookupDefinition Statement)

namespace Compilation

variable {drafts : List CompiledLookup} {parts : List (List CompiledLookup)}
  {pool cutPool : IdentifierPool} {merged cutMerged : MergedLookups}
  {state limited : Compilation}

/-- What the features of a table do that use some compiled lookups. -/
def behaviours (state : Compilation) (features : LanguageSystems) : Outcome (List Behaviour) := do
  let merged ← state.merge
  let blocks ← merged.featureBlocks features
  return blocks.map (FeatureBlock.behaviour merged.blocks)

/-- Whatever features can use the lookups of the first, they do the same with the second. -/
def SameBehaviour (state limited : Compilation) : Prop :=
  ∀ features behaviours, (state.behaviours features).result = .ok behaviours →
    (limited.behaviours features).result = .ok behaviours

/-- No piece of the project has the name of a lookup as its base that has been cut. -/
def NoPiecesJoin (state limited : Compilation) : Prop :=
  ∀ key whole first, state.lookups.get? key = some whole → limited.lookups.get? key = some first →
    whole.id.isPiece = false → first.id.isPiece → state.piecesOf key = []

/-! ## Features under a limit -/

theorem Regroups.blockNames_eq (regroups : Regroups drafts parts) :
    blockNames parts.flatten = blockNames drafts := by
  have names (lookups : List CompiledLookup) :
      blockNames lookups = ((groups lookups).map essence).map Prod.fst := by
    rw [List.map_map]
    rfl
  rw [names, names, regroups.essences_eq]

/-- The labels without a limit and under it stand for the same names. -/
theorem Regroups.agree
    (regroups : Regroups drafts parts)
    (labelled : Labelled drafts pool merged)
    (cutLabelled : Labelled parts.flatten cutPool cutMerged) :
    MergedLookups.Agree pool.identifierOf cutPool.identifierOf (blockNames drafts)
      merged cutMerged where
  firstApart name inside other otherInside same :=
    labelled.distinct.eq_of_identifierOf_eq (labelled.knows_of_mem_blockNames name inside)
      (labelled.knows_of_mem_blockNames other otherInside) same
  secondApart name inside other otherInside same := by
    rw [← regroups.blockNames_eq] at inside otherInside
    exact cutLabelled.distinct.eq_of_identifierOf_eq
      (cutLabelled.knows_of_mem_blockNames name inside)
      (cutLabelled.knows_of_mem_blockNames other otherInside) same
  found key label found := by
    obtain ⟨draft, present, rfl, rfl⟩ := labelled.get?_labels.mp found
    obtain ⟨place, inside, samePlace, sameName⟩ := regroups.exists_place present
    refine ⟨(groupAt? drafts draft).map blockName, ?_, by rw [Option.map_map]; rfl, ?_⟩
    · intro name member
      obtain ⟨group, found, rfl⟩ := Option.map_eq_some_iff.mp member
      exact mem_blockNames_of_groupAt? present found
    · refine cutLabelled.get?_labels.mpr ⟨place, inside, samePlace, ?_⟩
      rw [← sameName, Option.map_map]
      rfl

/-- Features that can use the drafts do the same with what stands for them under a limit. -/
theorem Regroups.featureBlocks
    (regroups : Regroups drafts parts)
    (labelled : Labelled drafts pool merged)
    (cutLabelled : Labelled parts.flatten cutPool cutMerged)
    {features : LanguageSystems}
    {log : List Notice}
    {blocks : List FeatureBlock}
    (resolved : merged.featureBlocks features = ⟨log, .ok blocks⟩) :
    ∃ later more, cutMerged.featureBlocks features = ⟨later, .ok more⟩
      ∧ more.map (FeatureBlock.behaviour cutMerged.blocks) =
          blocks.map (FeatureBlock.behaviour merged.blocks) := by
  obtain ⟨later, common, resolvedCut, rfl, inside⟩ :=
    (regroups.agree labelled cutLabelled).featureBlocks resolved
  refine ⟨later, _, resolvedCut, ?_⟩
  have same : ∀ name ∈ blockNames drafts,
      reach cutMerged.blocks (cutPool.identifierOf name) =
        reach merged.blocks (pool.identifierOf name) := by
    intro name member
    have memberCut : name ∈ blockNames parts.flatten := by
      rw [regroups.blockNames_eq]
      exact member
    rw [labelled.reach_eq (labelled.knows_of_mem_blockNames name member),
      cutLabelled.reach_eq (cutLabelled.knows_of_mem_blockNames name memberCut)]
    refine Feature.reach_congr ?_ name
    rw [labelled.essences_eq, cutLabelled.essences_eq, regroups.essences_eq]
  rw [List.map_map, List.map_map]
  apply List.map_congr_left
  intro feature present
  simp only [Function.comp_apply, FeatureBlock.behaviour, FeatureBlock.relabel, List.map_map]
  refine congrArg (Behaviour.mk feature.tag) (List.map_congr_left fun system held => ?_)
  simp only [Function.comp_apply, LanguageSystem.relabel, List.map_map]
  refine congrArg _ (congrArg _ (List.map_congr_left fun name refers => ?_))
  exact same name (inside feature present name (List.mem_flatMap.mpr ⟨system, held, refers⟩))

/-! ## Pieces that are in the way -/

/-- One feature with one reference. -/
def singleReference (name : String) : LanguageSystems :=
  (∅ : LanguageSystems).insert defaultScript
    ((∅ : OrderedMap Tag (OrderedMap Tag FeatureLookups)).insert defaultScript
      ((∅ : OrderedMap Tag FeatureLookups).insert defaultScript ⟨[name], ⟨1, 1⟩⟩))

theorem featureBlocks_singleReference
    {name : String}
    {label : Option String}
    (found : merged.labels.get? (Text.lowercase name) = some label) :
    ∃ log, merged.featureBlocks (singleReference name) =
      ⟨log, .ok [⟨defaultScript, [⟨defaultScript, defaultScript, label.toList⟩]⟩]⟩ := by
  obtain ⟨log, chosen⟩ : ∃ log, merged.references defaultScript ⟨[name], ⟨1, 1⟩⟩ =
      ⟨log, .ok label.toList⟩ := by
    rw [MergedLookups.references, List.foldlM_cons, MergedLookups.addReference, found]
    cases label <;> exact ⟨_, rfl⟩
  refine ⟨log, ?_⟩
  have system : merged.scriptSystems defaultScript (defaultScript,
      (∅ : OrderedMap Tag FeatureLookups).insert defaultScript ⟨[name], ⟨1, 1⟩⟩) =
        ⟨log, .ok [⟨defaultScript, defaultScript, label.toList⟩]⟩ := by
    simp [MergedLookups.scriptSystems, OrderedMap.entries_insert_empty, chosen, Outcome.bind_ok]
  simp [MergedLookups.featureBlocks, MergedLookups.featureBlock, singleReference,
    OrderedMap.entries_insert_empty, system, Outcome.bind_ok]

/-- A feature with one reference does what the drafts do under the name of the block. -/
theorem Labelled.behaviours_singleReference
    (labelled : Labelled drafts pool merged)
    {log : List Notice}
    (mergedOk : state.merge = ⟨log, .ok merged⟩)
    {draft : CompiledLookup}
    (present : draft ∈ drafts)
    {name : String}
    (key : draft.key = Text.lowercase name) :
    (state.behaviours (singleReference name)).result =
      .ok [⟨defaultScript, [(defaultScript, defaultScript,
        ((groupAt? drafts draft).map (effectsOf drafts)).toList)]⟩] := by
  obtain ⟨later, resolved⟩ :=
    featureBlocks_singleReference (labelled.get?_labels.mpr ⟨draft, present, key, rfl⟩)
  have effects : ((groupAt? drafts draft).map fun group =>
      pool.identifierOf (blockName group)).toList.map (reach merged.blocks) =
        ((groupAt? drafts draft).map (effectsOf drafts)).toList := by
    cases found : groupAt? drafts draft with
    | none => rfl
    | some group =>
        have known := labelled.knows_of_mem_blockNames _ (mem_blockNames_of_groupAt? present found)
        simp [effectsOf, labelled.reach_eq known]
  rw [behaviours, mergedOk, Outcome.bind_ok, resolved, Outcome.bind_ok, ← effects]
  rfl

/-- If all features do the same, then so does every reference. -/
theorem SameBehaviour.sameEffects
    {kept : List CompiledLookup}
    (same : SameBehaviour state limited)
    (labelled : Labelled drafts pool merged)
    (cutLabelled : Labelled kept cutPool cutMerged)
    {log later : List Notice}
    (mergedOk : state.merge = ⟨log, .ok merged⟩)
    (cutMergedOk : limited.merge = ⟨later, .ok cutMerged⟩) :
    SameEffects drafts kept := by
  intro used present place inside key
  have before := labelled.behaviours_singleReference mergedOk present rfl
  have after := cutLabelled.behaviours_singleReference cutMergedOk inside key
  have equal := same _ _ before
  rw [after] at equal
  simp only [Except.ok.injEq, List.cons.injEq, Behaviour.mk.injEq, Prod.mk.injEq, true_and,
    and_true] at equal
  simpa using congrArg List.head? equal.symm

/-! ## Pieces under a limit -/

/-- What a limit leaves in the table of a project whose lookups have different names. -/
theorem remains_of_related
    {definitions : Definitions}
    {options cutOptions : Options}
    {lookups : List LookupDefinition}
    {translations cuts : List (List CompiledLookup)}
    (related : List.Forall₂ (Translates definitions options) lookups translations)
    (unlimited : options.pairLimit = none)
    (cutRelated : List.Forall₂ (Translates definitions cutOptions) lookups cuts)
    (nodup : (translations.flatten.map CompiledLookup.key).Nodup)
    (divided : List.Forall₂ Divides translations.flatten parts)
    (same : cuts.flatten = parts.flatten) :
    Remains translations.flatten parts (enter ∅ cuts.flatten).values where
  divided := divided
  draftKeys := nodup
  pieceKeys := forall_mem_flatten_of_related related fun _ _ translated =>
    translated.exists_suffix_of_isPiece unlimited
  keptKeys := nodup_keys_of_keysOwn (keysOwn_enter_empty _)
  subset _ present := same ▸ of_mem_values_enter_empty present
  covered _ present := exists_mem_values_enter (same ▸ present)
  isDraft := isDraft_of_translates related
  keptDraft lookup present := isDraft_of_translates cutRelated lookup
    (of_mem_values_enter_empty present)

/-- The condition on the compiled lookups, in terms of the drafts behind them. -/
theorem Remains.noPiecesJoin_iff
    {kept : List CompiledLookup}
    (remains : Remains drafts parts kept)
    (cutKeys : (parts.flatten.map CompiledLookup.key).Nodup)
    {rename cutRename : String → String}
    (own : KeysOwn state.lookups)
    (cutOwn : KeysOwn limited.lookups)
    (values : state.lookups.values = drafts.map (CompiledLookup.relabel rename))
    (cutValues : limited.lookups.values =
      parts.flatten.map (CompiledLookup.relabel cutRename)) :
    NoPiecesJoin state limited ↔
      ∀ draft part, (draft, part) ∈ drafts.zip parts → 2 ≤ part.length →
        piecesAmong drafts draft.key = [] := by
  have none (key : String) : state.piecesOf key = [] ↔ piecesAmong drafts key = [] := by
    rw [← List.map_eq_nil_iff (f := Prod.snd), map_snd_piecesOf, values, piecesAmong_relabel,
      List.map_eq_nil_iff]
  constructor
  · intro free draft part member several
    obtain ⟨first, rest, rfl, firstKey⟩ := (remains.divides member).exists_first
    have present := (List.of_mem_zip member).1
    have inside : first ∈ parts.flatten :=
      List.mem_flatten.mpr ⟨_, (List.of_mem_zip member).2, List.mem_cons_self ..⟩
    have isPiece := (remains.divides member).isPieceOf several (List.mem_cons_self ..)
    refine (none draft.key).mp (free draft.key (draft.relabel rename)
      (first.relabel cutRename) ?_ ?_ isPiece.noPiece
      (pieceGroup?_eq_some_iff.mp isPiece.group).1)
    · exact (get?_eq_some_iff_of_keysOwn own).mpr ⟨values ▸ List.mem_map_of_mem present, rfl⟩
    · exact (get?_eq_some_iff_of_keysOwn cutOwn).mpr
        ⟨cutValues ▸ List.mem_map_of_mem inside, firstKey⟩
  · intro alone key whole first found cutFound noPiece isPiece
    obtain ⟨present, rfl⟩ := (get?_eq_some_iff_of_keysOwn own).mp found
    obtain ⟨cutPresent, firstKey⟩ := (get?_eq_some_iff_of_keysOwn cutOwn).mp cutFound
    rw [values] at present
    rw [cutValues] at cutPresent
    obtain ⟨draft, inDrafts, rfl⟩ := List.mem_map.mp present
    obtain ⟨piece, inParts, rfl⟩ := List.mem_map.mp cutPresent
    obtain ⟨part, member⟩ := remains.exists_part inDrafts
    refine (none _).mpr (alone draft part member ?_)
    obtain ⟨top, rest, rfl, _⟩ := (remains.divides member).exists_first
    rcases (remains.divides member).cases_of_mem (List.mem_cons_self ..) with
      ⟨same, _⟩ | ⟨several, _⟩
    · subst same
      have inFlatten : top ∈ parts.flatten :=
        List.mem_flatten.mpr ⟨_, (List.of_mem_zip member).2, List.mem_cons_self ..⟩
      have equal := List.inj_on_of_nodup_map cutKeys inParts inFlatten firstKey
      subst equal
      exact absurd isPiece (by simpa using noPiece)
    · exact several

theorem Regroups.sameBehaviour
    (regroups : Regroups drafts parts)
    (labelled : Labelled drafts pool merged)
    (cutLabelled : Labelled parts.flatten cutPool cutMerged)
    {log later : List Notice}
    (mergedOk : state.merge = ⟨log, .ok merged⟩)
    (cutMergedOk : limited.merge = ⟨later, .ok cutMerged⟩) :
    SameBehaviour state limited := by
  intro features behaviours done
  obtain ⟨log, done⟩ : ∃ log, state.behaviours features = ⟨log, .ok behaviours⟩ :=
    ⟨_, by rw [← done]⟩
  obtain ⟨_, _, _, mergedAgain, rest, _⟩ := Outcome.bind_eq_ok_iff.mp done
  rw [mergedOk] at mergedAgain
  cases mergedAgain
  obtain ⟨_, blocks, _, resolved, result, _⟩ := Outcome.bind_eq_ok_iff.mp rest
  cases result
  obtain ⟨_, more, resolvedCut, equal⟩ := regroups.featureBlocks labelled cutLabelled resolved
  rw [Compilation.behaviours, cutMergedOk, Outcome.bind_ok, resolvedCut, Outcome.bind_ok, ← equal]
  rfl

/-- The key of a draft is still there under a limit. -/
theorem Recut.exists_key
    {cut : List CompiledLookup}
    (recut : Recut drafts cut)
    {draft : CompiledLookup}
    (present : draft ∈ drafts) :
    ∃ lookup ∈ cut, lookup.key = draft.key := by
  obtain ⟨parts, divided, rfl⟩ := recut
  rw [← List.map_fst_zip divided.length_eq.le] at present
  obtain ⟨⟨_, part⟩, member, rfl⟩ := List.mem_map.mp present
  obtain ⟨first, rest, rfl, key⟩ := ((List.forall₂_iff_zip.mp divided).2 member).exists_first
  exact ⟨first, List.mem_flatten.mpr ⟨_, (List.of_mem_zip member).2, List.mem_cons_self ..⟩, key⟩

/-- Definitions whose lookups have different keys have different names. -/
theorem nodup_names_of_related
    {definitions : Definitions}
    {options : Options}
    {statements : List Statement}
    {translations : List (List CompiledLookup)}
    (related : List.Forall₂ (Translates definitions options) (lookupsOf statements) translations)
    (nodup : (translations.flatten.map CompiledLookup.key).Nodup) :
    ((lookupNames statements).map Text.lowercase).Nodup := by
  have perm := keys_perm (allNamedAfter_of_related related id)
  rw [← List.map_flatten, CompiledLookup.map_key_relabel] at perm
  exact (List.nodup_append'.mp (perm.nodup_iff.mp nodup)).1

/-- Features can do the same under a limit exactly if its pieces are in no lookup's way. -/
theorem sameBehaviour_iff
    {definitions : Definitions}
    {options : Options}
    {statements : List Statement}
    {log cutLog : List Notice}
    (compiled :
      ofStatements definitions { options with pairLimit := none } statements = ⟨log, .ok state⟩)
    (silent : ∀ name, .lookupRedefined name ∉ log)
    {limit : Nat}
    (cutCompiled : ofStatements definitions { options with pairLimit := limit } statements =
      ⟨cutLog, .ok limited⟩) :
    ∃ each,
      (compiledEach definitions { options with pairLimit := limit } statements).result = .ok each
        ∧ (SameBehaviour state limited ↔
            NoNameTaken (lookupNames statements) each ∧ NoPiecesJoin state limited) := by
  obtain ⟨translations, related, entered⟩ := entered_of_ofStatements compiled
  obtain ⟨cuts, cutRelated, parts, divided, same⟩ := recut_of_related related limit
  obtain ⟨_, _, again, cutEntered⟩ := ofStatements_of_translates cutRelated
  rw [cutCompiled] at again
  cases again
  have nodup : (translations.flatten.map CompiledLookup.key).Nodup := by
    simpa using entered.fresh silent
  have differ := nodup_names_of_related related nodup
  obtain ⟨_, merged, pool, mergedOk, values, labelled⟩ := labelled_of_entered related entered
  obtain ⟨_, cutMerged, cutPool, cutMergedOk, cutValues, cutLabelled⟩ :=
    labelled_of_entered cutRelated cutEntered
  rw [values_enter_of_nodup nodup] at values labelled
  have remains := remains_of_related related rfl cutRelated nodup divided same
  have stays (cutKeys : (parts.flatten.map CompiledLookup.key).Nodup) :
      (enter ∅ cuts.flatten).values = parts.flatten := by
    rw [same]
    exact values_enter_of_nodup cutKeys
  have joins (cutKeys : (parts.flatten.map CompiledLookup.key).Nodup) :=
    remains.noPiecesJoin_iff cutKeys (keysOwn_of_entered entered) (keysOwn_of_entered cutEntered)
      values (stays cutKeys ▸ cutValues)
  obtain ⟨_, each⟩ := compiledAlone_of_related cutRelated cutEntered.known
  refine ⟨_, congrArg Outcome.result
    (Outcome.bind_eq_ok_iff.mpr ⟨_, limited, _, cutCompiled, each, rfl⟩), ?_⟩
  rw [← nodup_keys_iff (allNamedAfter_of_related cutRelated _) differ, ← List.map_flatten,
    CompiledLookup.map_key_relabel, same]
  constructor
  · intro sameBehaviour
    have regroups := remains.regroups
      (sameBehaviour.sameEffects labelled cutLabelled mergedOk cutMergedOk)
    exact ⟨regroups.cutKeys, (joins regroups.cutKeys).mpr regroups.alone⟩
  · rintro ⟨cutKeys, free⟩
    have regroups : Regroups translations.flatten parts :=
      ⟨divided, nodup, cutKeys, (joins cutKeys).mp free⟩
    rw [stays cutKeys] at cutLabelled
    exact regroups.sameBehaviour labelled cutLabelled mergedOk cutMergedOk

end Compilation

/-! ## Conversions -/

open Compilation

/-- A limit never keeps a project from being converted. -/
theorem exists_convert_of_limit
    {statements : List Statement}
    {glyphOrder : Option GlyphOrder}
    {options : Options}
    {log : List Notice}
    {document : Document}
    (converted :
      convert statements glyphOrder { options with pairLimit := none } = ⟨log, .ok document⟩)
    (limit : Nat) :
    ∃ cutLog limited,
      convert statements glyphOrder { options with pairLimit := limit } =
        ⟨cutLog, .ok limited⟩ := by
  obtain ⟨_, definitions, _, state, _, merged, _, collected, compiled, mergedOk, resolved, _⟩ :=
    of_convert converted
  obtain ⟨translations, related, entered⟩ := entered_of_ofStatements compiled
  obtain ⟨cuts, cutRelated, recut⟩ := recut_of_related related limit
  obtain ⟨_, limited, cutCompiled, cutEntered⟩ := ofStatements_of_translates cutRelated
  obtain ⟨_, _, pool, again, _, labelled⟩ := labelled_of_entered related entered
  obtain ⟨_, cutMerged, cutPool, cutMergedOk, _, cutLabelled⟩ :=
    labelled_of_entered cutRelated cutEntered
  rw [mergedOk] at again
  cases again
  have keys (key : String) (found : (merged.labels.get? key).isSome) :
      (cutMerged.labels.get? key).isSome := by
    obtain ⟨label, found⟩ := Option.isSome_iff_exists.mp found
    obtain ⟨draft, present, rfl, _⟩ := labelled.get?_labels.mp found
    obtain ⟨lookup, inside, key⟩ := recut.exists_key (of_mem_values_enter_empty present)
    obtain ⟨other, left, same⟩ := exists_mem_values_enter inside
    exact Option.isSome_iff_exists.mpr
      ⟨_, cutLabelled.get?_labels.mpr ⟨other, left, same.trans key, rfl⟩⟩
  obtain ⟨_, features, cutResolved⟩ := MergedLookups.featureBlocks_of_keys keys resolved
  simp only [convert, collected, assemble, cutCompiled, cutMergedOk, cutResolved, Outcome.bind_ok]
  exact ⟨_, _, rfl⟩

theorem behaviours_eq_of_convert
    {definitions : Definitions}
    {state : Compilation}
    {merged : MergedLookups}
    {document : Document}
    {log later : List Notice}
    (mergedOk : state.merge = ⟨log, .ok merged⟩)
    (resolved : merged.featureBlocks definitions.features = ⟨later, .ok document.features⟩)
    (lookups_eq : document.lookups = merged.blocks) :
    (state.behaviours definitions.features).result = .ok document.behaviours := by
  rw [Compilation.behaviours, mergedOk, Outcome.bind_ok, resolved, Outcome.bind_ok,
    Document.behaviours, lookups_eq]
  rfl

/--
A project whose lookups have different names is converted under every limit as well.  Features
do the same as without a limit, whatever they are, exactly if the pieces that a lookup is cut
into take no other lookup's name and are joined by no pieces of the project.
-/
theorem convert_sameBehaviour_iff
    {statements : List Statement}
    {glyphOrder : Option GlyphOrder}
    {options : Options}
    {log : List Notice}
    {document : Document}
    (converted :
      convert statements glyphOrder { options with pairLimit := none } = ⟨log, .ok document⟩)
    (silent : ∀ name, .lookupRedefined name ∉ log)
    (limit : Nat) :
    ∃ cutLog limited,
      convert statements glyphOrder { options with pairLimit := limit } = ⟨cutLog, .ok limited⟩
        ∧ ∃ definitions state cutState compiled,
            (Definitions.collect statements glyphOrder).result = .ok definitions
              ∧ (ofStatements definitions { options with pairLimit := none } statements).result =
                  .ok state
              ∧ (ofStatements definitions { options with pairLimit := limit } statements).result =
                  .ok cutState
              ∧ (compiledEach definitions { options with pairLimit := limit } statements).result =
                  .ok compiled
              ∧ (SameBehaviour state cutState ↔
                  NoNameTaken (lookupNames statements) compiled ∧ NoPiecesJoin state cutState)
              ∧ (SameBehaviour state cutState → limited.behaviours = document.behaviours) := by
  obtain ⟨cutLog, limited, cutConverted⟩ := exists_convert_of_limit converted limit
  refine ⟨cutLog, limited, cutConverted, ?_⟩
  obtain ⟨_, definitions, _, state, _, merged, _, collected, compiled, mergedOk, resolved,
    lookups_eq, inLog⟩ := of_convert converted
  obtain ⟨_, _, _, cutState, _, cutMerged, _, again, cutCompiled, cutMergedOk, cutResolved,
    cutLookups_eq, _⟩ := of_convert cutConverted
  rw [collected] at again
  cases again
  obtain ⟨each, eachOk, iff⟩ :=
    sameBehaviour_iff compiled (fun name member => silent name (inLog member)) cutCompiled
  refine ⟨definitions, state, cutState, each, by rw [collected], by rw [compiled],
    by rw [cutCompiled], eachOk, iff, fun same => ?_⟩
  have before := same _ _ (behaviours_eq_of_convert mergedOk resolved lookups_eq)
  rw [behaviours_eq_of_convert cutMergedOk cutResolved cutLookups_eq] at before
  exact Except.ok.inj before

/-- A lookup for two pairs, and a feature that uses it. -/
def twoPairs : List Statement :=
  [kernFeature ["kern"], kerning "kern" [("A", "V"), ("T", "V")]]

theorem convert_sameBehaviour_iff_twoPairs :
    ∃ log document,
      convert twoPairs none { pairLimit := none } = ⟨log, .ok document⟩
        ∧ ∃ cutLog limited,
            convert twoPairs none { pairLimit := some 1 } = ⟨cutLog, .ok limited⟩
              ∧ (limited.lookups.map fun block => block.rules.count .subtable) = [1]
              ∧ limited.behaviours = document.behaviours := by
  obtain ⟨log, document, converted⟩ : ∃ log document,
      convert twoPairs none { pairLimit := none } = ⟨log, .ok document⟩ :=
    Outcome.exists_of_isOk (by decide +kernel)
  have silent : isSilent (convert twoPairs none { pairLimit := none }).log := by decide +kernel
  rw [converted] at silent
  obtain ⟨cutLog, limited, cutConverted, definitions, state, cutState, compiled, collected,
    stateOk, _, each, iff, same⟩ :=
    @convert_sameBehaviour_iff twoPairs none {} log document converted
      (not_mem_of_isSilent silent) 1
  refine ⟨log, document, converted, cutLog, limited, cutConverted, ?_, same (iff.mpr ⟨?_, ?_⟩)⟩
  · have breaks : (convert twoPairs none { pairLimit := some 1 }).result.toOption.map
        (fun document => document.lookups.map fun block => block.rules.count .subtable) =
          some [1] := by
      decide +kernel
    rw [cutConverted] at breaks
    exact Option.some.inj breaks
  · have generated : ((Definitions.collect twoPairs none).result.toOption.bind
        fun definitions => (compiledEach definitions { pairLimit := some 1 }
          twoPairs).result.toOption.map fun compiled =>
            (List.zipWith generatedKeys (lookupNames twoPairs) compiled).flatten) =
          some ["kern\\2"] := by
      decide +kernel
    simp only [collected, each, Except.toOption, Option.bind_some, Option.map_some,
      Option.some.injEq] at generated
    rw [NoNameTaken, generated]
    decide +kernel
  · have noPiece : ((Definitions.collect twoPairs none).result.toOption.bind
        fun definitions => (ofStatements definitions { pairLimit := none }
          twoPairs).result.toOption.map fun state =>
            state.lookups.entries.map fun entry => pieceGroup? entry.2) = some [none] := by
      decide +kernel
    simp only [collected, stateOk, Except.toOption, Option.bind_some, Option.map_some,
      Option.some.injEq] at noPiece
    intro key _ _ _ _ _ _
    apply List.filter_eq_nil_iff.mpr
    intro entry member
    have group := List.mem_map_of_mem (f := fun entry => pieceGroup? entry.2) member
    rw [noPiece, List.mem_singleton] at group
    simp [group]

/-- A lookup for two pairs, and one that has the name of its second piece. -/
def namedLikePiece : List Statement :=
  [kernFeature ["kern", "kern\\2"], kerning "kern" [("A", "V"), ("T", "V")],
    kerning "kern\\2" [("L", "Y")]]

/-- Splitting may make a difference to what features do. -/
theorem exists_not_sameBehaviour :
    ¬ ∀ (statements : List Statement) (glyphOrder : Option GlyphOrder) (options : Options)
      (limit : Nat) (log cutLog : List Notice) (document limited : Document),
      convert statements glyphOrder { options with pairLimit := none } = ⟨log, .ok document⟩ →
      (∀ name, .lookupRedefined name ∉ log) →
      convert statements glyphOrder { options with pairLimit := some limit } =
        ⟨cutLog, .ok limited⟩ →
        limited.behaviours = document.behaviours := by
  intro always
  obtain ⟨log, document, converted⟩ : ∃ log document,
      convert namedLikePiece none { pairLimit := none } = ⟨log, .ok document⟩ :=
    Outcome.exists_of_isOk (by decide +kernel)
  obtain ⟨cutLog, limited, cutConverted⟩ : ∃ log document,
      convert namedLikePiece none { pairLimit := some 1 } = ⟨log, .ok document⟩ :=
    Outcome.exists_of_isOk (by decide +kernel)
  have silent : isSilent (convert namedLikePiece none { pairLimit := none }).log := by
    decide +kernel
  have whole : (convert namedLikePiece none { pairLimit := none }).result.toOption.map
      (fun document => document.behaviours.map fun feature =>
        feature.systems.map fun system => system.2.2.length) = some [[2]] := by
    decide +kernel
  have cut : (convert namedLikePiece none { pairLimit := some 1 }).result.toOption.map
      (fun document => document.behaviours.map fun feature =>
        feature.systems.map fun system => system.2.2.length) = some [[1]] := by
    decide +kernel
  rw [converted] at silent whole
  rw [cutConverted] at cut
  have same := always namedLikePiece none {} 1 log cutLog document limited converted
    (not_mem_of_isSilent silent) cutConverted
  simp only [Except.toOption, Option.map_some, same, Option.some.injEq] at whole cut
  rw [whole] at cut
  cases cut

end GlyphLayout
