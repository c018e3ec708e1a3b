import GlyphLayout.Proofs.RuleForms
import GlyphLayout.Proofs.RuleShapes

/-!
# Origins of rules

Every rule that a definition is translated to is a plain rule of its positioning, stands for an
input sequence of it in one of its contexts, or for a mapping of its substitution in one of
them.
-/

namespace GlyphLayout
namespace Compilation

open Feature (Glyphs Rule)
open Source (LookupDefinition Mapping Positioning Substitution)

variable {definitions : Definitions} {options : Options} {lookup : LookupDefinition}
  {positioning : Positioning}

/-- What in the definition of a lookup a rule comes from. -/
inductive Origin (definitions : Definitions) (lookup : LookupDefinition) : Rule → Prop
  | plain
      {positioning : Positioning} {rule : Rule}
      (payload : lookup.payload = .positioning positioning)
      (form : definitions.PlainForm lookup.location positioning rule) :
      Origin definitions lookup rule
  | input
      {positioning : Positioning} {contexts : List RuleContext} {context : RuleContext}
      {inputs : List (List Glyphs)} {input : List Glyphs} {rule : Rule}
      (payload : lookup.payload = .positioning positioning)
      (surrounded : definitions.ruleContexts lookup = .ok contexts)
      (listed : context ∈ contexts)
      (resolved : definitions.inputSequences lookup.location positioning = .ok inputs)
      (present : input ∈ inputs)
      (shape : rule = .ignorePos context.context input
        ∨ ∃ target, rule =
            .chainPos context.context (input.map fun item => (item, some target))) :
      Origin definitions lookup rule
  | mapping
      {substitution : Substitution} {contexts : List RuleContext} {context : RuleContext}
      {mapping : Mapping} {input : List Glyphs} {rule : Rule}
      (payload : lookup.payload = .substitution substitution)
      (surrounded : definitions.ruleContexts lookup = .ok contexts)
      (listed : context ∈ contexts)
      (mapped : mapping ∈ substitution.mappings)
      (resolved : definitions.resolve mapping.location mapping.input = .ok input)
      (shape : rule = .ignoreSub context.context input
        ∨ ∃ output, definitions.resolve mapping.location mapping.output = .ok output
            ∧ substitutionRule substitution.kind context.context input output = some rule) :
      Origin definitions lookup rule

theorem origin_of_contextRules
    {contexts : List RuleContext}
    {context : RuleContext}
    {target : String}
    {rules : List Rule}
    (payload : lookup.payload = .positioning positioning)
    (surrounded : definitions.ruleContexts lookup = .ok contexts)
    (listed : context ∈ contexts)
    (written : contextRules definitions lookup positioning target context = .ok rules) :
    ∀ rule ∈ rules, Origin definitions lookup rule := by
  intro rule member
  cases contextRule_of_mem written member with
  | plain everywhere resolved member =>
      exact .plain payload (Definitions.plainForm_of_mem resolved member)
  | ignored contextual free except resolved present =>
      exact .input payload surrounded listed resolved present (.inl rfl)
  | chained contextual free within resolved present =>
      exact .input payload surrounded listed resolved present (.inr ⟨target, rfl⟩)

theorem TranslatesPositioning.origin
    {contexts : List RuleContext}
    {draft other : CompiledLookup}
    {drafts : List CompiledLookup}
    {rule : Rule}
    (translated :
      TranslatesPositioning definitions options lookup positioning contexts draft drafts)
    (payload : lookup.payload = .positioning positioning)
    (surrounded : definitions.ruleContexts lookup = .ok contexts)
    (present : other ∈ drafts)
    (member : rule ∈ other.rules) :
    Origin definitions lookup rule := by
  -- The rules for pairs are the plain rules, whether or not they are cut into pieces.
  have paired {firsts seconds adjustments pairs}
      (shape : positioning = .pairs firsts seconds adjustments)
      (resolved : definitions.pairRules lookup.location firsts seconds adjustments = .ok pairs)
      (inside : rule ∈ pairs.map PairRule.rule) : Origin definitions lookup rule := by
    subst shape
    have plain : definitions.plainRules lookup.location (.pairs firsts seconds adjustments) =
        .ok ⟨pairs.map PairRule.rule, []⟩ :=
      except_bind_eq_ok_iff.mpr ⟨pairs, resolved, rfl⟩
    exact .plain payload (Definitions.plainForm_of_mem plain inside)
  cases translated with
  | whole shape _ resolved =>
      rw [List.mem_singleton] at present
      subst present
      exact paired shape resolved member
  | cut shape _ resolved _ _ divided =>
      obtain ⟨_, rules, held, _, rfl⟩ := mem_pieceDrafts present
      exact paired shape resolved (mem_of_mem_pairPieces divided held member)
  | contextual _ helped _ written =>
      rcases mem_helped_iff.mp present with ⟨needed, rfl⟩ | rfl
      · exact .plain payload (Definitions.plainForm_of_mem (helped needed) member)
      · obtain ⟨part, held, inside⟩ := List.mem_flatten.mp member
        obtain ⟨context, listed, found⟩ := exists_of_mem_except_mapM written held
        exact origin_of_contextRules payload surrounded listed found rule inside

/-- Every rule that a definition is translated to comes from some part of it. -/
theorem Translates.origin
    {drafts : List CompiledLookup}
    {draft : CompiledLookup}
    {rule : Rule}
    (translated : Translates definitions options lookup drafts)
    (present : draft ∈ drafts)
    (member : rule ∈ draft.rules) :
    Origin definitions lookup rule := by
  cases translated with
  | substitution flagged surrounded payload written =>
      rw [List.mem_singleton] at present
      subst present
      obtain ⟨part, held, inside⟩ := List.mem_flatten.mp member
      obtain ⟨context, listed, _, found⟩ := Outcome.exists_of_mem_mapM written held
      obtain ⟨mapping, mapped, input, resolved, shape⟩ :=
        Definitions.exists_of_mem_substitutionRules found inside
      exact .mapping payload surrounded listed mapped resolved shape
  | positioning flagged surrounded payload overlaps translated =>
      exact translated.origin payload surrounded present member

end Compilation
end GlyphLayout
