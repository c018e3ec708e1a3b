import GlyphLayout.Proofs.RuleShapes
import GlyphLayout.Proofs.Translation

/-!
# Forms of compiled rules

The rules that a definition is translated to act on glyphs: comments, flags and subtable
breaks come in only when blocks are written.  A pair positioning lookup without contexts has
pair rules alone, and only the contextual rules of a positioning lookup refer to another
lookup, which is always its helper.
-/

namespace GlyphLayout

open Feature (Rule)
open Source (Coverage Location LookupDefinition PairAdjustment Positioning Substitution)

/-- The rule acts on glyphs without the help of another lookup. -/
def Feature.Rule.IsPlain (rule : Rule) : Prop :=
  rule.actsOnGlyphs ∧ rule.references = []

/-- Renaming leaves plain rules as they are. -/
theorem Feature.Rule.map_relabel_of_isPlain
    {rename : String → String}
    {rules : List Rule}
    (plain : ∀ rule ∈ rules, rule.IsPlain) :
    rules.map (Rule.relabel rename) = rules := by
  have same : ∀ rule ∈ rules, rule.relabel rename = id rule := fun rule member =>
    Rule.relabel_eq_self (plain rule member).2
  rw [List.map_congr_left same, List.map_id]

namespace Definitions

variable {definitions : Definitions} {location : Location}

theorem isPair_of_pairRules
    {firsts seconds : List Coverage}
    {adjustments : List PairAdjustment}
    {pairs : List PairRule}
    (resolved : definitions.pairRules location firsts seconds adjustments = .ok pairs) :
    ∀ rule ∈ pairs.map PairRule.rule, rule.isPair := by
  intro rule member
  obtain ⟨_, _, _, _, _, _, _, _, _, _, rfl⟩ := exists_of_mem_pairRules resolved member
  rfl

theorem isPlain_of_isPair {rule : Rule} (pair : rule.isPair) : rule.IsPlain := by
  cases rule <;> first | exact ⟨rfl, rfl⟩ | cases pair

theorem PlainForm.isPlain
    {positioning : Positioning}
    {rule : Rule}
    (form : PlainForm definitions location positioning rule) :
    rule.IsPlain := by
  cases form with
  | pair => exact ⟨rfl, rfl⟩
  | single => exact ⟨rfl, rfl⟩
  | attachment _ _ _ shape => rcases shape with rfl | ⟨_, rfl⟩ | rfl <;> exact ⟨rfl, rfl⟩
  | join => exact ⟨rfl, rfl⟩

/-- Plain rules are plain, whatever the lookup positions. -/
theorem isPlain_of_plainRules
    {positioning : Positioning}
    {plain : PlainRules}
    (resolved : definitions.plainRules location positioning = .ok plain) :
    ∀ rule ∈ plain.rules, rule.IsPlain :=
  fun _ member => (plainForm_of_mem resolved member).isPlain

theorem isPlain_of_substitutionRule
    {kind : Source.SubstitutionKind}
    {context : Feature.Context}
    {input output : List Feature.Glyphs}
    {rule : Rule}
    (shaped : substitutionRule kind context input output = some rule) :
    rule.IsPlain := by
  cases substitutionForm_of_substitutionRule shaped <;> exact ⟨rfl, rfl⟩

/-- The rules of a substitution are plain, in every context. -/
theorem isPlain_of_substitutionRules
    {substitution : Substitution}
    {context : RuleContext}
    {log : List Notice}
    {rules : List Rule}
    (written : definitions.substitutionRules substitution context = ⟨log, .ok rules⟩) :
    ∀ rule ∈ rules, rule.IsPlain := by
  intro rule member
  obtain ⟨_, _, _, _, rfl | ⟨_, _, shaped⟩⟩ := exists_of_mem_substitutionRules written member
  · exact ⟨rfl, rfl⟩
  · exact isPlain_of_substitutionRule shaped

/-- The rules of a substitution are plain, in all contexts together. -/
theorem isPlain_of_mem_flatten
    {substitution : Substitution}
    {contexts : List RuleContext}
    {log : List Notice}
    {rules : List (List Rule)}
    (written : contexts.mapM (definitions.substitutionRules substitution) = ⟨log, .ok rules⟩) :
    ∀ rule ∈ rules.flatten, rule.IsPlain := by
  intro rule member
  obtain ⟨part, present, inside⟩ := List.mem_flatten.mp member
  exact Outcome.forall_of_mapM written (fun _ _ _ result => isPlain_of_substitutionRules result)
    part present rule inside

end Definitions

namespace Compilation

variable {definitions : Definitions} {options : Options} {lookup : LookupDefinition}

/-- Cutting the rules for some pairs into pieces loses, doubles and moves none of them. -/
theorem flatten_pairPieces
    {location : Location}
    {limit : Nat}
    {pairs : List PairRule}
    {pieces : List (List Rule)}
    (divided : pairPieces definitions location limit pairs = .ok pieces) :
    pieces.flatten = pairs.map PairRule.rule := by
  obtain ⟨sized, each, result⟩ := except_bind_eq_ok_iff.mp divided
  cases result
  rw [← List.map_flatten, flatten_partition]
  have related := except_mapM_eq_ok_iff.mp each
  clear divided each
  induction related with
  | nil => rfl
  | cons head _ ih =>
      obtain ⟨size, _, result⟩ := except_bind_eq_ok_iff.mp head
      cases result
      rw [List.map_cons, List.map_cons, ih]

/-- The rules of a piece are rules for some of the pairs. -/
theorem mem_of_mem_pairPieces
    {location : Location}
    {limit : Nat}
    {pairs : List PairRule}
    {pieces : List (List Rule)}
    {piece : List Rule}
    {rule : Rule}
    (divided : pairPieces definitions location limit pairs = .ok pieces)
    (held : piece ∈ pieces)
    (member : rule ∈ piece) :
    rule ∈ pairs.map PairRule.rule := by
  rw [← flatten_pairPieces divided]
  exact List.mem_flatten.mpr ⟨piece, held, member⟩

theorem mem_pieceDrafts
    {whole draft : CompiledLookup}
    {index : Nat}
    {pieces : List (List Rule)}
    (member : draft ∈ pieceDrafts whole index pieces) :
    ∃ number, ∃ rules ∈ pieces, index ≤ number ∧ draft = pieceDraft whole number rules := by
  induction pieces generalizing index with
  | nil => cases member
  | cons rules rest ih =>
      rcases List.mem_cons.mp member with rfl | inside
      · exact ⟨index, rules, List.mem_cons_self .., Nat.le_refl index, rfl⟩
      · obtain ⟨number, later, present, above, same⟩ := ih inside
        exact ⟨number, later, List.mem_cons_of_mem _ present, by omega, same⟩

/-- The form of a rule that a positioning lookup has in a context. -/
inductive ContextRule (definitions : Definitions) (lookup : LookupDefinition)
    (positioning : Positioning) (target : String) (context : RuleContext) : Rule → Prop
  | plain
      {plain : PlainRules} {rule : Rule}
      (everywhere : context.isContextual = false)
      (resolved : definitions.plainRules lookup.location positioning = .ok plain)
      (member : rule ∈ plain.rules) :
      ContextRule definitions lookup positioning target context rule
  | ignored
      {inputs : List (List Feature.Glyphs)} {input : List Feature.Glyphs}
      (contextual : context.isContextual = true)
      (free : obstacle? lookup positioning = none)
      (except : context.ignored = true)
      (resolved : definitions.inputSequences lookup.location positioning = .ok inputs)
      (present : input ∈ inputs) :
      ContextRule definitions lookup positioning target context
        (.ignorePos context.context input)
  | chained
      {inputs : List (List Feature.Glyphs)} {input : List Feature.Glyphs}
      (contextual : context.isContextual = true)
      (free : obstacle? lookup positioning = none)
      (within : context.ignored = false)
      (resolved : definitions.inputSequences lookup.location positioning = .ok inputs)
      (present : input ∈ inputs) :
      ContextRule definitions lookup positioning target context
        (.chainPos context.context (input.map fun item => (item, some target)))

theorem contextRule_of_mem
    {positioning : Positioning}
    {target : String}
    {context : RuleContext}
    {rules : List Rule}
    {rule : Rule}
    (written : contextRules definitions lookup positioning target context = .ok rules)
    (member : rule ∈ rules) :
    ContextRule definitions lookup positioning target context rule := by
  unfold contextRules at written
  split at written
  · rename_i everywhere
    obtain ⟨plain, resolved, result⟩ := except_bind_eq_ok_iff.mp written
    cases result
    exact .plain (by simpa using everywhere) resolved member
  · rename_i contextual
    have contextual : context.isContextual = true := by simpa using contextual
    split at written
    · cases written
      cases member
    · rename_i free
      have free : obstacle? lookup positioning = none := by simpa using free
      obtain ⟨inputs, resolved, result⟩ := except_bind_eq_ok_iff.mp written
      cases result
      obtain ⟨input, present, rfl⟩ := List.mem_map.mp member
      split
      · rename_i except
        exact .ignored contextual free except resolved present
      · rename_i within
        exact .chained contextual free (Bool.eq_false_iff.mpr within) resolved present

/-- The rules of a positioning lookup in a context act on glyphs, and refer only to the target. -/
theorem rules_of_contextRules
    {positioning : Positioning}
    {target : String}
    {context : RuleContext}
    {rules : List Rule}
    (written : contextRules definitions lookup positioning target context = .ok rules) :
    ∀ rule ∈ rules, rule.actsOnGlyphs ∧ ∀ name ∈ rule.references, name = target := by
  intro rule member
  cases contextRule_of_mem written member with
  | plain everywhere resolved member =>
      have isPlain := Definitions.isPlain_of_plainRules resolved rule member
      exact ⟨isPlain.1, by simp [isPlain.2]⟩
  | ignored contextual free except resolved present => exact ⟨rfl, by simp [Rule.references]⟩
  | chained contextual free within resolved present =>
      refine ⟨rfl, fun name inside => ?_⟩
      simp only [Rule.references, List.filterMap_map, List.mem_filterMap] at inside
      obtain ⟨item, _, same⟩ := inside
      exact (Option.some.inj same).symm

/-- What holds of every lookup that a definition is translated to. -/
structure IsDraft (draft : CompiledLookup) : Prop where
  /-- The label is still a name of the project. -/
  label_eq : draft.label = draft.sourceName
  /-- There are no comments, flags or breaks among the rules. -/
  acts : ∀ rule ∈ draft.rules, rule.actsOnGlyphs
  /-- A lookup that may be a subtable has pair rules only. -/
  isPair : draft.kind = .pairs → ∀ rule ∈ draft.rules, rule.isPair
  /-- A lookup refers to its own helper only. -/
  references_eq : ∀ rule ∈ draft.rules, ∀ name ∈ rule.references,
    name = helperName draft.sourceName

theorem isDraft_of_isPlain
    {draft : CompiledLookup}
    (label_eq : draft.label = draft.sourceName)
    (kind : draft.kind ≠ .pairs)
    (plain : ∀ rule ∈ draft.rules, rule.IsPlain) :
    IsDraft draft where
  label_eq := label_eq
  acts rule member := (plain rule member).1
  isPair pairs := (kind pairs).elim
  references_eq rule member name inside := by
    rw [(plain rule member).2] at inside
    cases inside

theorem isDraft_of_isPair
    {draft : CompiledLookup}
    (label_eq : draft.label = draft.sourceName)
    (pairs : ∀ rule ∈ draft.rules, rule.isPair) :
    IsDraft draft where
  label_eq := label_eq
  acts rule member := (Definitions.isPlain_of_isPair (pairs rule member)).1
  isPair _ := pairs
  references_eq rule member name inside := by
    rw [(Definitions.isPlain_of_isPair (pairs rule member)).2] at inside
    cases inside

theorem TranslatesPositioning.isDraft
    {positioning : Positioning}
    {contexts : List RuleContext}
    {draft : CompiledLookup}
    {drafts : List CompiledLookup}
    (translated :
      TranslatesPositioning definitions options lookup positioning contexts draft drafts)
    (label_eq : draft.label = draft.sourceName) :
    ∀ other ∈ drafts, IsDraft other := by
  cases translated with
  | whole shape plain resolved stays =>
      intro other member
      rw [List.mem_singleton] at member
      subst member
      exact isDraft_of_isPair label_eq (Definitions.isPair_of_pairRules resolved)
  | cut shape plain resolved limited noPiece divided several =>
      intro other member
      obtain ⟨number, rules, present, _, rfl⟩ := mem_pieceDrafts member
      refine isDraft_of_isPair rfl fun rule inside => ?_
      exact Definitions.isPair_of_pairRules resolved rule
        (mem_of_mem_pairPieces divided present inside)
  | @contextual plain rules noPairs helped expressible written =>
      have main : IsDraft { draft with kind := .positioning, rules := rules.flatten } := by
        have each := forall_of_except_mapM written fun _ _ result =>
          rules_of_contextRules result
        refine ⟨label_eq, ?_, nofun, ?_⟩
        · intro rule member
          obtain ⟨part, present, inside⟩ := List.mem_flatten.mp member
          exact (each part present rule inside).1
        · intro rule member
          obtain ⟨part, present, inside⟩ := List.mem_flatten.mp member
          exact (each part present rule inside).2
      intro other member
      rcases mem_helped_iff.mp member with ⟨needed, rfl⟩ | rfl
      · exact isDraft_of_isPlain rfl nofun (Definitions.isPlain_of_plainRules (helped needed))
      · exact main

/-- Every lookup that a definition is translated to is a draft. -/
theorem Translates.isDraft
    {drafts : List CompiledLookup}
    (translated : Translates definitions options lookup drafts) :
    ∀ draft ∈ drafts, IsDraft draft := by
  cases translated with
  | substitution flagged surrounded payload written =>
      intro draft member
      rw [List.mem_singleton] at member
      subst member
      exact isDraft_of_isPlain rfl nofun (Definitions.isPlain_of_mem_flatten written)
  | positioning flagged surrounded payload overlaps translated =>
      exact translated.isDraft rfl

end Compilation
end GlyphLayout
