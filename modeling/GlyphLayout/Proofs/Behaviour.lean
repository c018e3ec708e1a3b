import GlyphLayout.Proofs.FeatureNames
import GlyphLayout.Proofs.Regrouping

/-!
# What features do

A feature does what the rules of the blocks that it refers to do.  Comments, subtable breaks
and labels have no part in it; a contextual rule does what the blocks do that it applies.  So
a renaming that tells labels apart makes no difference.
-/

namespace GlyphLayout

namespace Feature

variable {blocks : List Lookup} {rename : String → String}

/-- The rule without the labels of the lookups that it applies. -/
def Rule.unlabelled (rule : Rule) : Rule :=
  rule.relabel fun _ => ""

/-- The rules of the blocks with a label, without comments and subtable breaks. -/
def rulesUnder (blocks : List Lookup) (label : String) : List (List Rule) :=
  (blocks.filter (·.name = label)).map fun block => block.rules.filter Rule.isEffective

/-- What a rule does: the rule without labels, and the rules that each of its labels stands for. -/
abbrev Effect := Rule × List (List (List Rule))

/-- What a rule does among some blocks. -/
def Rule.effect (blocks : List Lookup) (rule : Rule) : Effect :=
  (rule.unlabelled,
    rule.references.map fun label => (rulesUnder blocks label).map (List.map Rule.unlabelled))

/-- What the blocks with a label do. -/
def reach (blocks : List Lookup) (label : String) : List (List Effect) :=
  (rulesUnder blocks label).map (List.map (Rule.effect blocks))

/-- What a feature does: for each language system, what the blocks do that it refers to. -/
structure Behaviour where
  tag : Tag
  systems : List (Tag × Tag × List (List (List Effect)))

/-- What a feature does among some blocks. -/
def FeatureBlock.behaviour (blocks : List Lookup) (feature : FeatureBlock) : Behaviour where
  tag := feature.tag
  systems := feature.systems.map fun system =>
    (system.script, system.language, system.lookups.map (reach blocks))

/-- What the features of a feature file do. -/
def Document.behaviours (document : Document) : List Behaviour :=
  document.features.map (FeatureBlock.behaviour document.lookups)

/-! ## Labels make no difference -/

@[simp] theorem Rule.unlabelled_relabel (rule : Rule) :
    (rule.relabel rename).unlabelled = rule.unlabelled := by
  rw [unlabelled, unlabelled, Rule.relabel_relabel]
  rfl

theorem filter_isEffective_relabel (rules : List Rule) :
    (rules.map (Rule.relabel rename)).filter Rule.isEffective =
      (rules.filter Rule.isEffective).map (Rule.relabel rename) := by
  rw [List.filter_map]
  refine congrArg _ (List.filter_congr fun rule _ => ?_)
  exact Rule.isEffective_relabel

/-- The renaming tells apart what the blocks are called and what their rules refer to. -/
structure TellsApart (rename : String → String) (known : String → Prop)
    (blocks : List Lookup) : Prop where
  apart : ∀ name other, known name → known other → rename name = rename other → name = other
  names : ∀ block ∈ blocks, known block.name
  references : ∀ block ∈ blocks, ∀ rule ∈ block.rules, ∀ name ∈ rule.references, known name

variable {known : String → Prop} {name : String}

theorem TellsApart.rulesUnder_relabel
    (tells : TellsApart rename known blocks)
    (isKnown : known name) :
    rulesUnder (blocks.map (Lookup.relabel rename)) (rename name) =
      (rulesUnder blocks name).map (List.map (Rule.relabel rename)) := by
  have same : ∀ block ∈ blocks,
      ((fun block : Lookup => decide (block.name = rename name)) ∘ Lookup.relabel rename) block =
        decide (block.name = name) := by
    intro block member
    rw [Function.comp_apply, decide_eq_decide]
    constructor
    · exact tells.apart _ _ (tells.names block member) isKnown
    · exact congrArg rename
  rw [rulesUnder, rulesUnder, List.filter_map, List.filter_congr same, List.map_map, List.map_map]
  exact List.map_congr_left fun block _ => filter_isEffective_relabel block.rules

theorem map_unlabelled_relabel (rules : List (List Rule)) :
    (rules.map (List.map (Rule.relabel rename))).map (List.map Rule.unlabelled) =
      rules.map (List.map Rule.unlabelled) := by
  rw [List.map_map]
  apply List.map_congr_left
  intro some _
  rw [Function.comp_apply, List.map_map]
  exact List.map_congr_left fun rule _ => Rule.unlabelled_relabel rule

/-- What is done under a label stays the same when labels are renamed. -/
theorem TellsApart.reach_relabel
    (tells : TellsApart rename known blocks)
    (isKnown : known name) :
    reach (blocks.map (Lookup.relabel rename)) (rename name) = reach blocks name := by
  rw [reach, reach, tells.rulesUnder_relabel isKnown, List.map_map]
  apply List.map_congr_left
  intro rules member
  rw [Function.comp_apply, List.map_map]
  apply List.map_congr_left
  intro rule inside
  obtain ⟨block, present, rfl⟩ := List.mem_map.mp member
  have held := List.mem_of_mem_filter present
  have within := List.mem_of_mem_filter inside
  rw [Function.comp_apply, Rule.effect, Rule.effect, Rule.unlabelled_relabel,
    Rule.references_relabel, List.map_map]
  refine congrArg (Prod.mk _) (List.map_congr_left fun target refers => ?_)
  rw [Function.comp_apply,
    tells.rulesUnder_relabel (tells.references block held rule within target refers),
    map_unlabelled_relabel]

/-- What blocks do depends on their names and their effective rules only. -/
theorem reach_congr
    {others : List Lookup}
    (same : (blocks.map fun block => (block.name, block.rules.filter Rule.isEffective)) =
      others.map fun block => (block.name, block.rules.filter Rule.isEffective))
    (label : String) :
    reach blocks label = reach others label := by
  have under (some : List Lookup) (label : String) : rulesUnder some label =
      ((some.map fun block => (block.name, block.rules.filter Rule.isEffective)).filter
        fun item => item.1 = label).map Prod.snd := by
    rw [rulesUnder, List.filter_map, List.map_map]
    rfl
  have equal : rulesUnder blocks = rulesUnder others := by
    funext label
    rw [under, under, same]
  have effects : Rule.effect blocks = Rule.effect others := by
    funext rule
    rw [Rule.effect, Rule.effect, equal]
  rw [reach, reach, equal, effects]

end Feature

namespace Compilation

open Feature (FeatureBlock Rule reach)

variable {drafts : List CompiledLookup} {pool : IdentifierPool} {merged : MergedLookups}

/-! ## What drafts do -/

/-- The blocks of some drafts, with names in place of identifiers. -/
def draftBlocks (drafts : List CompiledLookup) : List Feature.Lookup :=
  (groups drafts).map (blockFor id)

/-- Headings apart, the rules of a block are those of its lookups. -/
theorem filter_isEffective_blockFor
    {group : List CompiledLookup}
    (acts : ∀ draft ∈ group, ∀ rule ∈ draft.rules, rule.actsOnGlyphs) :
    (blockFor id group).rules.filter Rule.isEffective = (essence group).2 := by
  have comments (draft : CompiledLookup) : draft.commentRules.filter Rule.isEffective = [] := by
    rw [CompiledLookup.commentRules, List.filter_map, List.filter_eq_nil_iff.mpr, List.map_nil]
    simp [Rule.isEffective]
  have flags (draft : CompiledLookup) :
      draft.flagRules.filter Rule.isEffective = draft.flagRules := by
    unfold CompiledLookup.flagRules
    split <;> rfl
  have rules {draft : CompiledLookup} (member : draft ∈ group) :
      draft.rules.filter Rule.isEffective = draft.rules :=
    List.filter_eq_self.mpr fun rule inside =>
      Rule.isEffective_of_actsOnGlyphs (acts draft member rule inside)
  have piece {draft : CompiledLookup} (member : draft ∈ group) :
      (pieceRules draft).filter Rule.isEffective = draft.rules := by
    rw [pieceRules, List.filter_cons_of_neg (by simp [Rule.isEffective]), List.filter_append,
      comments, rules member, List.nil_append]
  rcases group with _ | ⟨first, _ | ⟨second, others⟩⟩
  · rfl
  · simp [blockFor, CompiledLookup.block, essence, comments, flags,
      rules (List.mem_singleton_self first)]
  · have further : ((second :: others).flatMap fun piece =>
        Rule.subtable :: pieceRules piece).filter Rule.isEffective =
          (second :: others).flatMap CompiledLookup.rules := by
      rw [List.filter_flatMap]
      apply List.flatMap_congr
      intro draft member
      rw [List.filter_cons_of_neg (by simp [Rule.isEffective]),
        piece (List.mem_cons_of_mem _ member)]
    rw [blockFor, mergedBlock, List.filter_append, List.filter_append, flags,
      piece (List.mem_cons_self ..), further]
    · simp [essence]
    · simp

theorem Labelled.essences_eq (labelled : Labelled drafts pool merged) :
    ((draftBlocks drafts).map fun block => (block.name, block.rules.filter Rule.isEffective)) =
      (groups drafts).map essence := by
  rw [draftBlocks, List.map_map]
  apply List.map_congr_left
  intro group member
  have isDraft : ∀ draft ∈ group, IsDraft draft := fun draft inside =>
    labelled.isDraft draft (mem_of_mem_groups member inside)
  exact Prod.ext (name_blockFor isDraft)
    (filter_isEffective_blockFor fun draft inside => (isDraft draft inside).acts)

theorem Labelled.tellsApart (labelled : Labelled drafts pool merged) :
    Feature.TellsApart pool.identifierOf pool.Knows (draftBlocks drafts) where
  apart _ _ known other same := labelled.distinct.eq_of_identifierOf_eq known other same
  names block member := by
    obtain ⟨group, inside, rfl⟩ := List.mem_map.mp member
    rw [name_blockFor fun draft held =>
      labelled.isDraft draft (mem_of_mem_groups inside held)]
    exact labelled.blocksKnown group inside
  references block member rule present name refers := by
    obtain ⟨group, inside, rfl⟩ := List.mem_map.mp member
    have among : name ∈ (blockFor id group).rules.flatMap Rule.references :=
      List.mem_flatMap.mpr ⟨rule, present, refers⟩
    rw [references_blockFor] at among
    obtain ⟨draft, held, within⟩ := List.mem_flatMap.mp among
    exact labelled.known draft (mem_of_mem_groups inside held) name
      (List.mem_cons_of_mem _ within)

/-- What is done under a label is what the drafts do under the name. -/
theorem Labelled.reach_eq
    (labelled : Labelled drafts pool merged)
    {name : String}
    (known : pool.Knows name) :
    reach merged.blocks (pool.identifierOf name) = reach (draftBlocks drafts) name := by
  rw [← labelled.tellsApart.reach_relabel known, labelled.blocks_eq, draftBlocks, List.map_map]
  rfl

end Compilation
end GlyphLayout
