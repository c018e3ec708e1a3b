import GlyphLayout.Proofs.Outcome
import GlyphLayout.Proofs.Reference

/-!
# What a definition is translated to

The lookups that stand for the definition of a lookup, said without the state of a run.  They
are drafts: labels and references are still the names of the project, so that they depend on
nothing but the definitions, the options and the definition itself.
-/

namespace GlyphLayout

open Feature (Flags Rule)
open Source (Coverage LookupDefinition PairAdjustment Positioning Substitution)

namespace Compilation

/-- The name of the helper of a lookup. -/
def helperName (name : String) : String :=
  name ++ " target"

/-- The helper of a lookup, with the given plain rules. -/
def helperDraft (parent : CompiledLookup) (rules : List Rule) : CompiledLookup where
  id := ⟨helperName parent.sourceName, none⟩
  sourceName := helperName parent.sourceName
  label := helperName parent.sourceName
  kind := .positioning
  flags := parent.flags
  useExtension := parent.useExtension
  rules

/-- A piece of a lookup at an index that counts from zero. -/
def pieceDraft (whole : CompiledLookup) (index : Nat) (rules : List Rule) : CompiledLookup :=
  { whole with
    id := ⟨whole.sourceName, some (UInt32.ofNat (index + 1))⟩
    sourceName := LookupId.pieceName whole.sourceName index
    label := LookupId.pieceName whole.sourceName index
    comments := if index = 0 then whole.comments else none
    rules }

/-- The pieces of a lookup, numbered from `index` on. -/
def pieceDrafts (whole : CompiledLookup) (index : Nat) : List (List Rule) → List CompiledLookup
  | [] => []
  | rules :: rest => pieceDraft whole index rules :: pieceDrafts whole (index + 1) rest

/-- The lookup needs its helper in the context. -/
def appliesHelper (lookup : LookupDefinition) (positioning : Positioning)
    (context : RuleContext) : Bool :=
  context.isContextual && (obstacle? lookup positioning).isNone && !context.ignored

/-- The lookup positions pairs and nothing else is asked of a context. -/
def isPlainPairs (contexts : List RuleContext) : Positioning → Bool
  | .pairs .. => contexts.all (!·.isContextual)
  | _ => false

/-- The glyphs that the coverages of pairs have in common can be found out. -/
def OverlapsKnown (definitions : Definitions) (lookup : LookupDefinition) : Positioning → Prop
  | .pairs firsts seconds _ =>
      (∃ sets, firsts.mapM (definitions.expand lookup.location) = .ok sets)
        ∧ ∃ sets, seconds.mapM (definitions.expand lookup.location) = .ok sets
  | _ => True

/-- The rules of a positioning lookup in one context, where `target` has its plain rules. -/
def contextRules (definitions : Definitions) (lookup : LookupDefinition)
    (positioning : Positioning) (target : String) (context : RuleContext) :
    Except ConversionError (List Rule) :=
  if !context.isContextual then do
    return (← definitions.plainRules lookup.location positioning).rules
  else if (obstacle? lookup positioning).isSome then
    return []
  else do
    let inputs ← definitions.inputSequences lookup.location positioning
    return inputs.map fun input =>
      if context.ignored then .ignorePos context.context input
      else .chainPos context.context (input.map fun item => (item, some target))

theorem contextRules_of_plain
    {definitions : Definitions}
    {lookup : LookupDefinition}
    {positioning : Positioning}
    {target : String}
    {context : RuleContext}
    {plain : PlainRules}
    (everywhere : context.isContextual = false)
    (resolved : definitions.plainRules lookup.location positioning = .ok plain) :
    contextRules definitions lookup positioning target context = .ok plain.rules := by
  simp only [contextRules, everywhere, resolved]
  rfl

theorem contextRules_of_obstacle
    {definitions : Definitions}
    {lookup : LookupDefinition}
    {positioning : Positioning}
    {target : String}
    {context : RuleContext}
    {construct : Construct}
    (contextual : context.isContextual = true)
    (obstacle : obstacle? lookup positioning = some construct) :
    contextRules definitions lookup positioning target context = .ok [] := by
  simp only [contextRules, contextual, obstacle]
  rfl

theorem contextRules_of_inputs
    {definitions : Definitions}
    {lookup : LookupDefinition}
    {positioning : Positioning}
    {target : String}
    {context : RuleContext}
    {inputs : List (List Feature.Glyphs)}
    (contextual : context.isContextual = true)
    (free : obstacle? lookup positioning = none)
    (resolved : definitions.inputSequences lookup.location positioning = .ok inputs) :
    contextRules definitions lookup positioning target context =
      .ok (inputs.map fun input =>
        if context.ignored then .ignorePos context.context input
        else .chainPos context.context (input.map fun item => (item, some target))) := by
  simp only [contextRules, contextual, free, resolved]
  rfl

/-- The rules for some pairs stay together under the options. -/
def StaysWhole (definitions : Definitions) (options : Options) (lookup : LookupDefinition)
    (draft : CompiledLookup) (pairs : List PairRule) : Prop :=
  ∀ limit, options.pairLimit = some limit → draft.id.isPiece = false →
    ∃ pieces, pairPieces definitions lookup.location limit pairs = .ok pieces
      ∧ pieces.length < 2

/-- The lookups that stand for a positioning lookup, given what is known of it as a whole. -/
inductive TranslatesPositioning (definitions : Definitions) (options : Options)
    (lookup : LookupDefinition) (positioning : Positioning) (contexts : List RuleContext)
    (draft : CompiledLookup) : List CompiledLookup → Prop
  /-- Pairs outside any context make one lookup if there are not too many of them. -/
  | whole
      {firsts seconds : List Coverage} {adjustments : List PairAdjustment}
      {pairs : List PairRule}
      (shape : positioning = .pairs firsts seconds adjustments)
      (plain : isPlainPairs contexts positioning)
      (resolved : definitions.pairRules lookup.location firsts seconds adjustments = .ok pairs)
      (stays : StaysWhole definitions options lookup draft pairs) :
      TranslatesPositioning definitions options lookup positioning contexts draft
        [{ draft with kind := .pairs, rules := pairs.map PairRule.rule }]
  /-- Otherwise they are cut into pieces. -/
  | cut
      {firsts seconds : List Coverage} {adjustments : List PairAdjustment}
      {pairs : List PairRule} {limit : Nat} {pieces : List (List Rule)}
      (shape : positioning = .pairs firsts seconds adjustments)
      (plain : isPlainPairs contexts positioning)
      (resolved : definitions.pairRules lookup.location firsts seconds adjustments = .ok pairs)
      (limited : options.pairLimit = some limit)
      (noPiece : draft.id.isPiece = false)
      (divided : pairPieces definitions lookup.location limit pairs = .ok pieces)
      (several : 2 ≤ pieces.length) :
      TranslatesPositioning definitions options lookup positioning contexts draft
        (pieceDrafts { draft with kind := .pairs } 0 pieces)
  /-- All else is written context by context, with a helper if some context needs it. -/
  | contextual
      {plain : PlainRules} {rules : List (List Rule)}
      (noPairs : isPlainPairs contexts positioning = false)
      (helped : contexts.any (appliesHelper lookup positioning) →
        definitions.plainRules lookup.location positioning = .ok plain)
      (expressible : options.strict → ∀ context ∈ contexts, context.isContextual →
        obstacle? lookup positioning = none)
      (written : contexts.mapM
        (contextRules definitions lookup positioning (helperName draft.sourceName)) =
          .ok rules) :
      TranslatesPositioning definitions options lookup positioning contexts draft
        ((if contexts.any (appliesHelper lookup positioning) then
            [helperDraft draft plain.rules]
          else [])
          ++ [{ draft with kind := .positioning, rules := rules.flatten }])

/-- A lookup that is written context by context stands alone or behind its helper. -/
theorem mem_helped_iff
    {needed : Prop}
    [Decidable needed]
    {helper own other : CompiledLookup} :
    other ∈ (if needed then [helper] else []) ++ [own] ↔
      (needed ∧ other = helper) ∨ other = own := by
  by_cases holds : needed <;> simp [holds]

/-- What the lookups for a definition have in common. -/
def draftOf (lookup : LookupDefinition) (flags : Flags) : CompiledLookup where
  id := .ofName lookup.name
  sourceName := lookup.name
  label := lookup.name
  kind := .substitution
  comments := lookup.comments
  flags

/-- The lookups that stand for a definition. -/
inductive Translates (definitions : Definitions) (options : Options)
    (lookup : LookupDefinition) : List CompiledLookup → Prop
  | substitution
      {flags : Flags} {contexts : List RuleContext} {substitution : Substitution}
      {log : List Notice} {rules : List (List Rule)}
      (flagged : definitions.lookupFlags lookup = .ok flags)
      (surrounded : definitions.ruleContexts lookup = .ok contexts)
      (payload : lookup.payload = .substitution substitution)
      (written : contexts.mapM (definitions.substitutionRules substitution) =
        ⟨log, .ok rules⟩) :
      Translates definitions options lookup
        [{ draftOf lookup flags with rules := rules.flatten }]
  | positioning
      {flags : Flags} {contexts : List RuleContext} {positioning : Positioning}
      {drafts : List CompiledLookup}
      (flagged : definitions.lookupFlags lookup = .ok flags)
      (surrounded : definitions.ruleContexts lookup = .ok contexts)
      (payload : lookup.payload = .positioning positioning)
      (overlaps : OverlapsKnown definitions lookup positioning)
      (translated : TranslatesPositioning definitions options lookup positioning contexts
        { draftOf lookup flags with useExtension := definitions.useExtension } drafts) :
      Translates definitions options lookup drafts

end Compilation
end GlyphLayout
