import GlyphLayout.Proofs.Origins

/-!
# Operands of rules

Every reference of a rule that a definition is translated to, in its surroundings and in the rule
itself, comes from coverages in one of a few ways: it is an item of a coverage, a whole coverage as
one reference, a class that takes in several coverages, or a single glyph.
-/

namespace GlyphLayout

open Feature (Glyphs Rule)
open Source (Coverage Location LookupDefinition Positioning)

namespace Feature

/-- What stands around the input of a rule, in front and behind. -/
def Context.surroundings (context : Context) : List Glyphs :=
  context.backtrack ++ context.lookahead

namespace Rule

/-- The references of a rule: its surroundings, its targets and what replaces them. -/
def operands : Rule → List Glyphs
  | comment _ | flags _ | subtable => []
  | singleSub context target replacement => context.surroundings ++ [target, replacement]
  | reverseSub context target replacement => context.surroundings ++ [target, replacement]
  | multipleSub context target replacement => context.surroundings ++ target :: replacement
  | ligatureSub context components replacement =>
      context.surroundings ++ components ++ [replacement]
  | ignoreSub context input => context.surroundings ++ input
  | pair _ first _ second _ => [first, second]
  | single target _ => [target]
  | markToBase base _ => [base]
  | markToLigature base _ => [base]
  | markToMark base _ => [base]
  | cursive glyph _ _ => [glyph]
  | chainPos context input => context.surroundings ++ input.map Prod.fst
  | ignorePos context input => context.surroundings ++ input

@[simp] theorem operands_relabel {rename : String → String} {rule : Rule} :
    (rule.relabel rename).operands = rule.operands := by
  cases rule with
  | chainPos context input => simp [relabel, operands, Function.comp_def]
  | _ => rfl

end Rule
end Feature

namespace Definitions

variable {definitions : Definitions} {location : Location}

/-- How an operand of a rule comes from coverages. -/
inductive IsOperand (definitions : Definitions) : Glyphs → Prop
  | item
      {location : Location} {coverage : Coverage} {items : List Glyphs} {item : Glyphs}
      (resolved : definitions.resolve location coverage = .ok items)
      (present : item ∈ items) :
      IsOperand definitions item
  | collapsed
      {location : Location} {coverage : Coverage} {whole : Glyphs}
      (resolved : definitions.resolveCollapsed location coverage = .ok whole) :
      IsOperand definitions whole
  | gathered
      {location : Location} {coverages : List Coverage} {items : List Glyphs}
      (resolved : definitions.resolveSequence location coverages = .ok items) :
      IsOperand definitions (.flatten items)
  | glyph (name : String) : IsOperand definitions (.glyph name)

/-- The operands of a substitution are those of its context and its two sides. -/
theorem operands_substitutionRule
    {kind : Source.SubstitutionKind}
    {context : Feature.Context}
    {input output : List Glyphs}
    {rule : Rule}
    (shaped : substitutionRule kind context input output = some rule) :
    rule.operands = context.surroundings ++ input ++ output := by
  cases substitutionForm_of_substitutionRule shaped <;> simp [Rule.operands]

/-- The items of several coverages are items of one of them. -/
theorem exists_of_mem_resolveSequence
    {coverages : List Coverage}
    {items : List Glyphs}
    {item : Glyphs}
    (resolved : definitions.resolveSequence location coverages = .ok items)
    (member : item ∈ items) :
    ∃ coverage ∈ coverages, ∃ part,
      definitions.resolve location coverage = .ok part ∧ item ∈ part := by
  obtain ⟨parts, each, result⟩ := except_bind_eq_ok_iff.mp resolved
  cases result
  obtain ⟨part, held, inside⟩ := List.mem_flatten.mp member
  obtain ⟨coverage, listed, found⟩ := exists_of_mem_except_mapM each held
  exact ⟨coverage, listed, part, found, inside⟩

theorem isOperand_of_resolveSequence
    {coverages : List Coverage}
    {items : List Glyphs}
    (resolved : definitions.resolveSequence location coverages = .ok items) :
    ∀ item ∈ items, IsOperand definitions item := by
  intro item member
  obtain ⟨_, _, _, found, inside⟩ := exists_of_mem_resolveSequence resolved member
  exact .item found inside

theorem isOperand_of_ruleContext
    {lookup : LookupDefinition}
    {definition : Source.ContextDefinition}
    {context : RuleContext}
    (resolved : definitions.ruleContext lookup definition = .ok context) :
    ∀ item ∈ context.context.surroundings, IsOperand definitions item := by
  obtain ⟨backtrack, front, result⟩ := except_bind_eq_ok_iff.mp resolved
  obtain ⟨lookahead, behind, result⟩ := except_bind_eq_ok_iff.mp result
  cases result
  exact List.forall_mem_append.mpr
    ⟨isOperand_of_resolveSequence front, isOperand_of_resolveSequence behind⟩

/-- A context for rules is one that the lookup defines, unless nothing stands around it. -/
theorem surroundings_eq_nil_or_exists_of_ruleContexts
    {lookup : LookupDefinition}
    {contexts : List RuleContext}
    (surrounded : definitions.ruleContexts lookup = .ok contexts) :
    ∀ context ∈ contexts, context.context.surroundings = []
      ∨ ∃ definition ∈ lookup.contexts, definitions.ruleContext lookup definition = .ok context := by
  unfold ruleContexts at surrounded
  split at surrounded
  · cases surrounded
    exact List.forall_mem_singleton.mpr (.inl rfl)
  · rename_i only alone
    obtain ⟨context, resolved, result⟩ := except_bind_eq_ok_iff.mp surrounded
    have own : ∃ definition ∈ lookup.contexts,
        definitions.ruleContext lookup definition = .ok context :=
      ⟨only, by simp [alone], resolved⟩
    split at result
    · cases result
      exact List.forall_mem_cons.mpr ⟨.inr own, List.forall_mem_singleton.mpr (.inl rfl)⟩
    · cases result
      exact List.forall_mem_singleton.mpr (.inr own)
  · exact fun context member => .inr (exists_of_mem_except_mapM surrounded member)

/-- What stands around the input of a rule comes from the contexts of its lookup. -/
theorem isOperand_of_ruleContexts
    {lookup : LookupDefinition}
    {contexts : List RuleContext}
    (surrounded : definitions.ruleContexts lookup = .ok contexts) :
    ∀ context ∈ contexts, ∀ item ∈ context.context.surroundings,
      IsOperand definitions item := by
  intro context member
  rcases surroundings_eq_nil_or_exists_of_ruleContexts surrounded context member with
    bare | ⟨definition, _, resolved⟩
  · simp [bare]
  · exact isOperand_of_ruleContext resolved

/-- The operands of the plain rules of a positioning come from its coverages. -/
theorem PlainForm.isOperand
    {positioning : Positioning}
    {rule : Rule}
    (form : PlainForm definitions location positioning rule) :
    ∀ operand ∈ rule.operands, IsOperand definitions operand := by
  cases form with
  | pair _ _ firstResolved secondResolved =>
      exact List.forall_mem_cons.mpr
        ⟨.collapsed firstResolved, List.forall_mem_singleton.mpr (.collapsed secondResolved)⟩
  | single _ resolved => exact List.forall_mem_singleton.mpr (.collapsed resolved)
  | attachment _ _ _ shape =>
      rcases shape with rfl | ⟨_, rfl⟩ | rfl
      all_goals exact List.forall_mem_singleton.mpr (.glyph _)
  | join => exact List.forall_mem_singleton.mpr (.glyph _)

/-- The input sequences of a positioning come from its coverages. -/
theorem isOperand_of_inputSequences
    {positioning : Positioning}
    {inputs : List (List Glyphs)}
    (resolved : definitions.inputSequences location positioning = .ok inputs) :
    ∀ input ∈ inputs, ∀ item ∈ input, IsOperand definitions item := by
  cases positioning with
  | pairs firsts seconds adjustments =>
      refine forall_of_except_mapM resolved fun pair input written => ?_
      obtain ⟨_, _, result⟩ := except_bind_eq_ok_iff.mp written
      obtain ⟨first, firstResolved, result⟩ := except_bind_eq_ok_iff.mp result
      obtain ⟨second, secondResolved, result⟩ := except_bind_eq_ok_iff.mp result
      cases result
      exact List.forall_mem_cons.mpr
        ⟨.collapsed firstResolved, List.forall_mem_singleton.mpr (.collapsed secondResolved)⟩
  | singles adjustments =>
      obtain ⟨sequence, each, result⟩ := except_bind_eq_ok_iff.mp resolved
      cases result
      exact List.forall_mem_singleton.mpr (List.forall_mem_singleton.mpr (.gathered each))
  | attach bases marks =>
      obtain ⟨sequence, each, result⟩ := except_bind_eq_ok_iff.mp resolved
      cases result
      exact List.forall_mem_singleton.mpr (List.forall_mem_singleton.mpr (.gathered each))
  | cursive exits entries =>
      cases resolved
      simp

end Definitions

/-- Wherever a rule comes from, its operands come from coverages. -/
theorem Compilation.Origin.isOperand
    {definitions : Definitions}
    {lookup : LookupDefinition}
    {rule : Rule}
    (origin : Origin definitions lookup rule) :
    ∀ operand ∈ rule.operands, definitions.IsOperand operand := by
  cases origin with
  | plain _ form => exact form.isOperand
  | input _ surrounded listed resolved present shape =>
      have around := Definitions.isOperand_of_ruleContexts surrounded _ listed
      have within := Definitions.isOperand_of_inputSequences resolved _ present
      rcases shape with rfl | ⟨target, rfl⟩
      · exact List.forall_mem_append.mpr ⟨around, within⟩
      · simp only [Rule.operands, List.map_map, Function.comp_def, List.map_id']
        exact List.forall_mem_append.mpr ⟨around, within⟩
  | mapping _ surrounded listed _ resolved shape =>
      have around := Definitions.isOperand_of_ruleContexts surrounded _ listed
      have front := List.forall_mem_append.mpr
        ⟨around, fun _ => Definitions.IsOperand.item resolved⟩
      rcases shape with rfl | ⟨output, outputResolved, shaped⟩
      · exact front
      · rw [Definitions.operands_substitutionRule shaped]
        exact List.forall_mem_append.mpr
          ⟨front, fun _ => Definitions.IsOperand.item outputResolved⟩

end GlyphLayout
