import GlyphLayout.Proofs.HelperNotices
import GlyphLayout.Proofs.Retention
import GlyphLayout.Proofs.RuleShapes

/-!
# Helpers

A contextual rule of a positioning lookup applies a helper, which has the plain rules of the
lookup under its flags.  The helper has a block of its own, which stands in front of the block
with the contextual rules.
-/

namespace GlyphLayout

open Feature (Document Flags Glyphs Rule)
open Source (Location LookupDefinition Positioning Statement)

/-- The rule applies lookups to the items of its input. -/
def Feature.Rule.isChain : Rule → Bool
  | chainPos .. => true
  | _ => false

theorem Feature.Rule.isChain_of_isPair {rule : Rule} (pair : rule.isPair) :
    rule.isChain = false := by
  cases rule <;> first | rfl | cases pair

namespace Definitions

variable {definitions : Definitions} {lookup : LookupDefinition}

/-! ## Rules without helpers -/

theorem isChain_of_mem_plainRules
    {location : Location}
    {positioning : Positioning}
    {plain : PlainRules}
    {rule : Rule}
    (resolved : definitions.plainRules location positioning = .ok plain)
    (member : rule ∈ plain.rules) :
    rule.isChain = false := by
  cases plainForm_of_mem resolved member with
  | attachment _ _ _ shape => rcases shape with rfl | ⟨_, rfl⟩ | rfl <;> rfl
  | _ => rfl

theorem isChain_of_mem_substitutionRules
    {substitution : Source.Substitution}
    {context : RuleContext}
    {log : List Notice}
    {rules : List Rule}
    {rule : Rule}
    (written : definitions.substitutionRules substitution context = ⟨log, .ok rules⟩)
    (member : rule ∈ rules) :
    rule.isChain = false := by
  obtain ⟨_, _, _, _, rfl | ⟨_, _, shaped⟩⟩ := exists_of_mem_substitutionRules written member
  · rfl
  · cases substitutionForm_of_substitutionRule shaped <;> rfl

/-- If several contexts rule a lookup out and none admits it, it applies nowhere. -/
theorem ignored_of_ruleContexts
    {contexts : List RuleContext}
    (surrounded : definitions.ruleContexts lookup = .ok contexts)
    (several : 2 ≤ lookup.contexts.length)
    (excepted : ∀ context ∈ lookup.contexts, context.kind = .except) :
    ∀ context ∈ contexts, context.ignored := by
  intro context member
  rw [← Bool.not_eq_false]
  intro applied
  rcases (appliesSomewhere_iff surrounded).mpr ⟨context, member, applied⟩ with
    few | ⟨definition, listed, within⟩
  · omega
  · rw [excepted definition listed] at within
    cases within

end Definitions

namespace Compilation

variable {definitions : Definitions} {options : Options} {lookup : LookupDefinition}
  {positioning : Positioning} {contexts : List RuleContext}

theorem needsHelper_of_excepted
    (several : 2 ≤ lookup.contexts.length)
    (excepted : ∀ context ∈ lookup.contexts, context.kind = .except) :
    needsHelper definitions lookup = false := by
  unfold needsHelper
  split
  · rename_i positioning contexts _ surrounded
    rw [List.any_eq_false]
    intro context member
    have ignored := Definitions.ignored_of_ruleContexts surrounded several excepted context member
    simp [appliesHelper, ignored]
  · rfl

/-! ## Helpers among translations -/

/-- The helpers among the lookups that stand for a definition. -/
def helpersAmong (lookup : LookupDefinition) (own : List CompiledLookup) : List CompiledLookup :=
  own.filter (·.sourceName = helperName lookup.name)

theorem helpersAmong_relabel (own : List CompiledLookup) (rename : String → String) :
    helpersAmong lookup (own.map (CompiledLookup.relabel rename)) =
      (helpersAmong lookup own).map (CompiledLookup.relabel rename) :=
  List.filter_map

/-- A definition stands for one helper if some context needs it, and otherwise for none. -/
theorem Translates.length_helpersAmong
    {drafts : List CompiledLookup}
    (translated : Translates definitions options lookup drafts) :
    (helpersAmong lookup drafts).length =
      if needsHelper definitions lookup then 1 else 0 := by
  have own : lookup.name ≠ helperName lookup.name := pieceName_ne_helperName lookup.name 0
  cases translated with
  | substitution flagged surrounded payload written =>
      simp [helpersAmong, draftOf, own, needsHelper_of_substitution payload]
  | positioning flagged surrounded payload overlaps translated =>
      rw [needsHelper_of_positioning payload surrounded]
      cases translated with
      | whole shape plain resolved stays =>
          simp [helpersAmong, draftOf, own, any_appliesHelper_of_isPlainPairs plain]
      | @cut _ _ _ _ _ pieces shape plain resolved limited noPiece divided several =>
          rw [any_appliesHelper_of_isPlainPairs plain, if_neg Bool.false_ne_true,
            List.length_eq_zero_iff, helpersAmong, List.filter_eq_nil_iff]
          intro piece member
          obtain ⟨number, _, _, _, rfl⟩ := mem_pieceDrafts member
          simpa [pieceDraft, draftOf] using pieceName_ne_helperName lookup.name number
      | contextual noPairs helped expressible written =>
          split <;> simp [helpersAmong, draftOf, helperDraft, own]

/-- The same holds under new labels. -/
theorem length_helpersAmong_of_related
    {lookups : List LookupDefinition}
    {translations : List (List CompiledLookup)}
    {rename : String → String}
    {own : List CompiledLookup}
    (related : List.Forall₂ (Translates definitions options) lookups translations)
    (paired : (lookup, own) ∈
      lookups.zip (translations.map (List.map (CompiledLookup.relabel rename)))) :
    (helpersAmong lookup own).length =
      if needsHelper definitions lookup then 1 else 0 := by
  rw [List.zip_map_right] at paired
  obtain ⟨⟨other, drafts⟩, zipped, same⟩ := List.mem_map.mp paired
  obtain ⟨rfl, rfl⟩ := Prod.mk.inj same
  have translated : Translates definitions options other drafts :=
    (List.forall₂_iff_zip.mp related).2 zipped
  rw [helpersAmong_relabel, List.length_map]
  exact translated.length_helpersAmong

/-- A draft has the plain rules of a lookup under its flags, and nothing else. -/
structure IsHelper (definitions : Definitions) (lookup : LookupDefinition)
    (helper : CompiledLookup) : Prop where
  label_eq : helper.label = helperName lookup.name
  piece_eq : helper.id.piece = none
  comments_eq : helper.comments = none
  useExtension_eq : helper.useExtension = definitions.useExtension
  flags_eq : definitions.lookupFlags lookup = .ok helper.flags
  rules_eq : ∃ positioning plain, lookup.payload = .positioning positioning
    ∧ definitions.plainRules lookup.location positioning = .ok plain
    ∧ helper.rules = plain.rules

/-- A chaining rule of a context applies the target to all of its input. -/
theorem of_isChain_of_contextRules
    {target : String}
    {context : RuleContext}
    {rules : List Rule}
    {around : Feature.Context}
    {input : List (Glyphs × Option String)}
    (written : contextRules definitions lookup positioning target context = .ok rules)
    (member : .chainPos around input ∈ rules) :
    appliesHelper lookup positioning context ∧ ∀ item ∈ input, item.2 = some target := by
  cases contextRule_of_mem written member with
  | plain everywhere resolved member =>
      cases Definitions.isChain_of_mem_plainRules resolved member
  | chained contextual free within resolved present =>
      refine ⟨by simp [appliesHelper, contextual, free, within], fun item inside => ?_⟩
      obtain ⟨_, _, rfl⟩ := List.mem_map.mp inside
      rfl

/-- The helper stands in front of a lookup with chaining rules, which apply it. -/
theorem Translates.exists_helper
    {drafts before after : List CompiledLookup}
    {draft : CompiledLookup}
    {around : Feature.Context}
    {input : List (Glyphs × Option String)}
    (translated : Translates definitions options lookup drafts)
    (divides : drafts = before ++ draft :: after)
    (member : .chainPos around input ∈ draft.rules) :
    ∃ helper ∈ before, IsHelper definitions lookup helper
      ∧ ∀ item ∈ input, item.2 = some helper.label := by
  have present : draft ∈ drafts := by simp [divides]
  cases translated with
  | substitution flagged surrounded payload written =>
      rw [List.mem_singleton] at present
      subst present
      obtain ⟨part, listed, inside⟩ := List.mem_flatten.mp member
      obtain ⟨_, _, _, each⟩ := Outcome.exists_of_mem_mapM written listed
      cases Definitions.isChain_of_mem_substitutionRules each inside
  | @positioning flags _ _ _ flagged surrounded payload overlaps translated =>
      cases translated with
      | whole shape plain resolved stays =>
          rw [List.mem_singleton] at present
          subst present
          cases Rule.isChain_of_isPair (Definitions.isPair_of_pairRules resolved _ member)
      | cut shape plain resolved limited noPiece divided several =>
          obtain ⟨_, rules, listed, _, rfl⟩ := mem_pieceDrafts present
          have inside := mem_of_mem_pairPieces divided listed member
          cases Rule.isChain_of_isPair (Definitions.isPair_of_pairRules resolved _ inside)
      | @contextual plain rules noPairs helped expressible written =>
          rcases mem_helped_iff.mp present with ⟨needed, rfl⟩ | isOwn
          · cases Definitions.isChain_of_mem_plainRules (helped needed) member
          · have own := member
            rw [isOwn] at own
            obtain ⟨part, listed, inside⟩ := List.mem_flatten.mp own
            obtain ⟨context, surrounding, each⟩ := exists_of_mem_except_mapM written listed
            obtain ⟨applies, target⟩ := of_isChain_of_contextRules each inside
            have needed := List.any_eq_true.mpr ⟨context, surrounding, applies⟩
            have resolved := helped needed
            rw [if_pos needed, List.singleton_append] at divides
            cases before with
            | nil =>
                rw [← (List.cons.inj divides).1] at member
                cases Definitions.isChain_of_mem_plainRules resolved member
            | cons first rest =>
                rw [← (List.cons.inj divides).1]
                exact ⟨_, List.mem_cons_self ..,
                  ⟨rfl, rfl, rfl, rfl, flagged, _, plain, payload, resolved, rfl⟩, target⟩

/-- Of all translations, those of the same definition have the helper. -/
theorem exists_helper_of_related
    {lookups : List LookupDefinition}
    {translations : List (List CompiledLookup)}
    {before after : List CompiledLookup}
    {draft : CompiledLookup}
    {around : Feature.Context}
    {input : List (Glyphs × Option String)}
    (related : List.Forall₂ (Translates definitions options) lookups translations)
    (divides : translations.flatten = before ++ draft :: after)
    (member : .chainPos around input ∈ draft.rules) :
    ∃ lookup drafts, (lookup, drafts) ∈ lookups.zip translations ∧ draft ∈ drafts
      ∧ ∃ helper ∈ before, IsHelper definitions lookup helper
          ∧ ∀ item ∈ input, item.2 = some helper.label := by
  induction related generalizing before with
  | nil => simp at divides
  | @cons first drafts lookups translations translated _ ih =>
      rw [List.flatten_cons, List.append_eq_append_iff] at divides
      have later {earlier : List CompiledLookup}
          (rest : translations.flatten = earlier ++ draft :: after)
          (inside : earlier ⊆ before) :
          ∃ lookup own, (lookup, own) ∈ (first :: lookups).zip (drafts :: translations)
            ∧ draft ∈ own ∧ ∃ helper ∈ before, IsHelper definitions lookup helper
              ∧ ∀ item ∈ input, item.2 = some helper.label := by
        obtain ⟨lookup, own, paired, present, helper, found, facts⟩ := ih rest
        exact ⟨lookup, own, List.mem_cons_of_mem _ paired, present, helper, inside found, facts⟩
      rcases divides with ⟨earlier, rfl, rest⟩ | ⟨own, rfl, rest⟩
      · exact later rest (List.subset_append_right ..)
      · cases own with
        | nil =>
            have none : translations.flatten = [] ++ draft :: after := rest.symm
            exact later none (List.nil_subset _)
        | cons other others =>
            obtain ⟨rfl, _⟩ := List.cons.inj rest
            exact ⟨first, _, List.mem_cons_self .., by simp,
              translated.exists_helper rfl member⟩

/-! ## Blocks with chaining rules -/

/-- A lookup with a chaining rule is no piece of a pair positioning lookup. -/
theorem pieceGroup?_eq_none_of_isChain
    {lookup : CompiledLookup}
    {rule : Rule}
    (act : RulesAct lookup)
    (member : rule ∈ lookup.rules)
    (chain : rule.isChain) :
    pieceGroup? lookup = none := by
  cases piece : pieceGroup? lookup with
  | none => rfl
  | some name =>
      have pair := act.2 (pieceGroup?_eq_some_iff.mp piece).2.1 rule member
      rw [Rule.isChain_of_isPair pair] at chain
      cases chain

/-- A chaining rule stands in the block of its lookup, behind the blocks of earlier lookups. -/
theorem exists_of_chain_mem_block
    {lookups : List CompiledLookup}
    {pool : IdentifierPool}
    {before after : List Feature.Lookup}
    {block : Feature.Lookup}
    {rule : Rule}
    (act : ∀ lookup ∈ lookups, RulesAct lookup)
    (divides : (groups lookups).map (blockFor pool.identifierOf) = before ++ block :: after)
    (member : rule ∈ block.rules)
    (chain : rule.isChain) :
    ∃ earlier lookup later, lookups = earlier ++ lookup :: later ∧ block = lookup.block
      ∧ rule ∈ lookup.rules
      ∧ ∀ other ∈ earlier, pieceGroup? other = none → other.block ∈ before := by
  obtain ⟨firstGroups, rest, groups_eq, rfl, rest_eq⟩ := List.map_eq_append_iff.mp divides
  obtain ⟨group, _, rfl, rfl, _⟩ := List.map_eq_cons_iff.mp rest_eq
  obtain ⟨first, others, rfl, firstGroups_eq, others_eq⟩ :=
    List.filterMap_eq_append_iff.mp groups_eq
  obtain ⟨hidden, lookup, later, rfl, hides, found, _⟩ :=
    List.filterMap_eq_cons_iff.mp others_eq
  have inGroups : group ∈ groups (first ++ (hidden ++ lookup :: later)) := by
    rw [groups_eq]
    exact List.mem_append_right _ (List.mem_cons_self ..)
  have holds : Holds (blockFor pool.identifierOf group).rules group :=
    holds_blockFor (ne_nil_of_mem_groups inGroups)
      fun other inside => (act other (mem_of_mem_groups inGroups inside)).1
  have acts : rule.actsOnGlyphs := by cases rule <;> first | rfl | cases chain
  obtain ⟨holder, held, inside⟩ := holds.mem_rules member acts
  -- The pieces of a group have rules for pairs only, so the lookup is alone in its block.
  have alone : pieceGroup? holder = none :=
    pieceGroup?_eq_none_of_isChain (act holder (mem_of_mem_groups inGroups held)) inside chain
  have group_eq : group = [lookup] := by
    rcases eq_of_groupAt? found with ⟨_, same⟩ | ⟨name, _, rfl, _⟩
    · exact same
    · rw [(mem_piecesAmong.mp held).2] at alone
      cases alone
  subst group_eq
  rw [List.mem_singleton] at held
  subst held
  refine ⟨first ++ hidden, holder, later, by simp, rfl, inside, fun other earlier single => ?_⟩
  have own : groupAt? (first ++ (hidden ++ holder :: later)) other = some [other] := by
    simp [groupAt?, single]
  rcases List.mem_append.mp earlier with there | here
  · have inFirst : [other] ∈ firstGroups :=
      firstGroups_eq ▸ List.mem_filterMap.mpr ⟨other, there, own⟩
    exact List.mem_map_of_mem inFirst
  · rw [hides other here] at own
    cases own

/-- A block has the plain rules of a lookup under its flags, and nothing else. -/
structure IsHelperBlock (definitions : Definitions) (lookup : LookupDefinition)
    (block : Feature.Lookup) : Prop where
  useExtension_eq : block.useExtension = definitions.useExtension
  rules_eq : ∃ positioning flags plain, lookup.payload = .positioning positioning
    ∧ definitions.lookupFlags lookup = .ok flags
    ∧ definitions.plainRules lookup.location positioning = .ok plain
    ∧ block.rules = (if flags.isDefault then [] else [.flags flags]) ++ plain.rules

theorem IsHelper.isHelperBlock
    {helper : CompiledLookup}
    (isHelper : IsHelper definitions lookup helper)
    (rename : String → String) :
    IsHelperBlock definitions lookup (helper.relabel rename).block := by
  obtain ⟨positioning, plain, payload, resolved, rules_eq⟩ := isHelper.rules_eq
  refine ⟨isHelper.useExtension_eq, positioning, helper.flags, plain, payload,
    isHelper.flags_eq, resolved, ?_⟩
  have same : (helper.relabel rename).rules = plain.rules := by
    rw [CompiledLookup.rules_relabel, rules_eq]
    exact Rule.map_relabel_of_isPlain (Definitions.isPlain_of_plainRules resolved)
  have noComments : (helper.relabel rename).commentRules = [] := by
    simp [CompiledLookup.commentRules, CompiledLookup.relabel, isHelper.comments_eq]
  rw [CompiledLookup.block, same, noComments]
  rfl

theorem pieceGroup?_of_isHelper
    {helper : CompiledLookup}
    (isHelper : IsHelper definitions lookup helper)
    (rename : String → String) :
    pieceGroup? (helper.relabel rename) = none := by
  simp [pieceGroup?, LookupId.isPiece, isHelper.piece_eq]

/-- A chaining rule under new labels applies the new label of what it applied before. -/
theorem exists_of_chain_mem_relabel
    {draft : CompiledLookup}
    {rename : String → String}
    {around : Feature.Context}
    {input : List (Glyphs × Option String)}
    (member : .chainPos around input ∈ (draft.relabel rename).rules) :
    ∃ targets, .chainPos around targets ∈ draft.rules
      ∧ input = targets.map fun item => (item.1, item.2.map rename) := by
  obtain ⟨rule, present, same⟩ := List.mem_map.mp member
  cases rule <;> cases same
  exact ⟨_, present, rfl⟩

/-- The blocks of a project, where no lookup takes the place of another. -/
theorem exists_helperBlock_of_entered
    {state : Compilation}
    {pool : IdentifierPool}
    {merged : MergedLookups}
    {lookups : List LookupDefinition}
    {translations : List (List CompiledLookup)}
    {log : List Notice}
    {before after : List Feature.Lookup}
    {block : Feature.Lookup}
    {around : Feature.Context}
    {input : List (Glyphs × Option String)}
    (related : List.Forall₂ (Translates definitions options) lookups translations)
    (entered : Entered {} translations.flatten log state)
    (distinct : (translations.flatten.map CompiledLookup.key).Nodup)
    (facts : Merged state pool merged)
    (divides : merged.blocks = before ++ block :: after)
    (member : .chainPos around input ∈ block.rules) :
    ∃ lookup drafts, (lookup, drafts) ∈ lookups.zip translations
      ∧ (∃ draft ∈ drafts, block = (draft.relabel state.labels.identifierOf).block)
      ∧ ∃ helper ∈ before, IsHelperBlock definitions lookup helper
          ∧ ∀ item ∈ input, item.2 = some helper.name := by
  have values : state.lookups.values =
      translations.flatten.map (CompiledLookup.relabel state.labels.identifierOf) := by
    rw [entered.lookups_eq]
    exact values_enter_of_nodup (by simpa [Function.comp_def] using distinct)
  rw [facts.blocks_eq] at divides
  obtain ⟨earlier, written, later, values_eq, rfl, inside, blocks⟩ :=
    exists_of_chain_mem_block (rulesAct_of_entered related entered) divides member rfl
  obtain ⟨earlierDrafts, rest, drafts_eq, rfl, rest_eq⟩ :=
    List.map_eq_append_iff.mp (values.symm.trans values_eq)
  obtain ⟨draft, laterDrafts, rfl, rfl, _⟩ := List.map_eq_cons_iff.mp rest_eq
  obtain ⟨targets, present, rfl⟩ := exists_of_chain_mem_relabel inside
  obtain ⟨lookup, drafts, paired, among, helper, found, isHelper, same⟩ :=
    exists_helper_of_related related drafts_eq present
  refine ⟨lookup, drafts, paired, ⟨draft, among, rfl⟩,
    (helper.relabel state.labels.identifierOf).block, ?_, isHelper.isHelperBlock _, ?_⟩
  · exact blocks _ (List.mem_map_of_mem found) (pieceGroup?_of_isHelper isHelper _)
  · intro item inside
    obtain ⟨target, listed, rfl⟩ := List.mem_map.mp inside
    rw [same target listed]
    rfl

end Compilation

open Compilation

/-- As long as no lookup takes the place of another, the lookups of a project differ in name. -/
theorem nodup_lookupNames
    {definitions : Definitions}
    {options : Options}
    {statements : List Statement}
    {translations : List (List CompiledLookup)}
    (related : List.Forall₂ (Translates definitions options) (lookupsOf statements) translations)
    (distinct : (translations.flatten.map CompiledLookup.key).Nodup) :
    (lookupNames statements).Nodup := by
  have perm := keys_perm (allNamedAfter_of_related related id)
  rw [← List.map_flatten, CompiledLookup.map_key_relabel] at perm
  exact (List.nodup_append.mp (perm.nodup_iff.mp distinct)).1.of_map _

/-- The notices of a conversion name the lookups that need a helper, in order. -/
theorem helpersAdded_of_convert
    {statements : List Statement}
    {options : Options}
    {definitions : Definitions}
    {state : Compilation}
    {document : Document}
    {glyphOrder : Option GlyphOrder}
    {collecting compiling assembling : List Notice}
    (collected : Definitions.collect statements glyphOrder = ⟨collecting, .ok definitions⟩)
    (compiled : ofStatements definitions options statements = ⟨compiling, .ok state⟩)
    (assembled : assemble definitions state = ⟨assembling, .ok document⟩) :
    helpersAdded (collecting ++ (compiling ++ assembling)) =
      ((lookupsOf statements).filter (needsHelper definitions)).map (·.name) := by
  rw [helpersAdded_append, helpersAdded_append,
    helpersAdded_of_routine Definitions.routine_collect collected,
    helpersAdded_of_routine routine_assemble assembled, List.nil_append, List.append_nil]
  exact helpersAdded_of_ofStatements compiled

/-- Among lookups that differ in name, those that need a helper are named once. -/
theorem count_needsHelper
    {definitions : Definitions}
    {lookups : List LookupDefinition}
    {lookup : LookupDefinition}
    (names : (lookups.map (·.name)).Nodup)
    (listed : lookup ∈ lookups) :
    ((lookups.filter (needsHelper definitions)).map (·.name)).count lookup.name =
      if needsHelper definitions lookup then 1 else 0 := by
  have once : ((lookups.filter (needsHelper definitions)).map (·.name)).Nodup :=
    names.sublist (List.filter_sublist.map _)
  have named : lookup.name ∈ (lookups.filter (needsHelper definitions)).map (·.name) ↔
      needsHelper definitions lookup := by
    constructor
    · intro inside
      obtain ⟨other, present, same⟩ := List.mem_map.mp inside
      obtain ⟨otherListed, needed⟩ := List.mem_filter.mp present
      rwa [List.inj_on_of_nodup_map names otherListed listed same] at needed
    · exact fun needed => List.mem_map_of_mem (List.mem_filter.mpr ⟨listed, needed⟩)
  rw [once.count]
  simp only [named]

/--
In a project whose lookups all keep their places, each chaining rule of a lookup applies one
helper, which has the plain rules of the lookup and stands in a block further up.  No lookup
has more than one helper, a helper is reported when it is added, and a lookup that applies
nowhere has none.
-/
theorem convert_chain_reaches_helper
    {statements : List Statement}
    {glyphOrder : Option GlyphOrder}
    {options : Options}
    {log : List Notice}
    {document : Document}
    (converted : convert statements glyphOrder options = ⟨log, .ok document⟩)
    (kept : ∀ name, Notice.lookupRedefined name ∉ log) :
    ∃ definitions compiled, (Definitions.collect statements glyphOrder).result = .ok definitions
      ∧ (compiledEach definitions options statements).result = .ok compiled
      ∧ (∀ before block after, document.lookups = before ++ block :: after →
          ∀ around input, .chainPos around input ∈ block.rules →
            ∃ lookup own, (lookup, own) ∈ (lookupsOf statements).zip compiled
              ∧ (∃ written ∈ own, block = written.block)
              ∧ ∃ helper ∈ before, IsHelperBlock definitions lookup helper
                  ∧ ∀ item ∈ input, item.2 = some helper.name)
      ∧ ∀ lookup own, (lookup, own) ∈ (lookupsOf statements).zip compiled →
          (helpersAmong lookup own).length ≤ 1
            ∧ (helpersAdded log).count lookup.name = (helpersAmong lookup own).length
            ∧ (2 ≤ lookup.contexts.length →
                (∀ context ∈ lookup.contexts, context.kind = .except) →
                  helpersAmong lookup own = []) := by
  obtain ⟨_, definitions, _, collected, rest, rfl⟩ := Outcome.bind_eq_ok_iff.mp converted
  obtain ⟨compiling, state, _, compiled, assembled, rfl⟩ := Outcome.bind_eq_ok_iff.mp rest
  obtain ⟨_, merged, _, mergedOk, last, _⟩ := Outcome.bind_eq_ok_iff.mp assembled
  obtain ⟨_, _, _, _, result, _⟩ := Outcome.bind_eq_ok_iff.mp last
  obtain ⟨translations, related, entered⟩ := entered_of_ofStatements compiled
  obtain ⟨_, _, _, same, facts⟩ := merged_of_keysOwn (keysOwn_of_entered entered)
  rw [mergedOk] at same
  cases same
  cases result
  have distinct : (translations.flatten.map CompiledLookup.key).Nodup := by
    simpa using entered.fresh fun name inside =>
      kept name (List.mem_append_right _ (List.mem_append_left _ inside))
  obtain ⟨_, each⟩ := compiledAlone_of_related related entered.known
  refine ⟨definitions, _, by rw [collected],
    congrArg Outcome.result (Outcome.bind_eq_ok_iff.mpr ⟨_, state, _, compiled, each, rfl⟩),
    fun before block after divides around input member => ?_, fun lookup own paired => ?_⟩
  · obtain ⟨lookup, drafts, paired, ⟨draft, present, rfl⟩, reaches⟩ :=
      exists_helperBlock_of_entered related entered distinct facts divides member
    refine ⟨lookup, drafts.map (CompiledLookup.relabel state.labels.identifierOf), ?_,
      ⟨_, List.mem_map_of_mem present, rfl⟩, reaches⟩
    rw [List.zip_map_right]
    exact List.mem_map_of_mem paired
  · have helpers := length_helpersAmong_of_related related paired
    have listed := (List.of_mem_zip paired).1
    refine ⟨?_, ?_, fun several excepted => ?_⟩
    · rw [helpers]
      split <;> decide
    · rw [helpers, helpersAdded_of_convert collected compiled assembled]
      exact count_needsHelper (nodup_lookupNames related distinct) listed
    · rw [needsHelper_of_excepted several excepted] at helpers
      exact List.length_eq_zero_iff.mp helpers

/-- A lookup that applies in one context, and one that two contexts rule out. -/
def helpedAndExcepted : List Statement :=
  [spacing "space", lookupNamed "nowhere"
    [⟨.except, [[.glyph "x"]], []⟩, ⟨.except, [], [[.glyph "y"]]⟩]
    (.positioning (.singles [([.glyph "A"], { advance := some 10 })]))]

theorem convert_chain_reaches_helper_helpedAndExcepted :
    ∃ log document, convert helpedAndExcepted none {} = ⟨log, .ok document⟩
      ∧ helpersAdded log = ["space"]
      ∧ document.lookups.map (fun block => (block.name, block.rules.filter Rule.isChain)) =
          [("space_target", []),
            ("space", [.chainPos { backtrack := [.glyph "x"] }
              [(.inline [.glyph "A"], some "space_target")]]),
            ("nowhere", [])]
      ∧ ∃ definitions,
          (Definitions.collect helpedAndExcepted none).result = .ok definitions
            ∧ ∀ before block after, document.lookups = before ++ block :: after →
                ∀ around input, .chainPos around input ∈ block.rules →
                  ∃ lookup ∈ lookupsOf helpedAndExcepted, ∃ helper ∈ before,
                    IsHelperBlock definitions lookup helper
                      ∧ ∀ item ∈ input, item.2 = some helper.name := by
  have logged : helpersAdded (convert helpedAndExcepted none {}).log = ["space"]
      ∧ isSilent (convert helpedAndExcepted none {}).log := by
    decide +kernel
  have blocks : (convert helpedAndExcepted none {}).result.toOption.map (fun document =>
      document.lookups.map fun block => (block.name, block.rules.filter Rule.isChain)) =
      some [("space_target", []),
        ("space", [.chainPos { backtrack := [.glyph "x"] }
          [(.inline [.glyph "A"], some "space_target")]]),
        ("nowhere", [])] := by
    decide +kernel
  obtain ⟨log, document, converted⟩ : ∃ log document,
      convert helpedAndExcepted none {} = ⟨log, .ok document⟩ :=
    Outcome.exists_of_isOk (by decide +kernel)
  rw [converted] at logged
  simp only [converted, Except.toOption, Option.map_some, Option.some.injEq] at blocks
  obtain ⟨definitions, compiled, collected, _, reaches, _⟩ :=
    convert_chain_reaches_helper converted (not_mem_of_isSilent logged.2)
  refine ⟨log, document, converted, logged.1, blocks, definitions, collected, ?_⟩
  intro before block after divides around input member
  obtain ⟨lookup, own, paired, _, helper⟩ := reaches before block after divides around input member
  exact ⟨lookup, (List.of_mem_zip paired).1, helper⟩

end GlyphLayout
