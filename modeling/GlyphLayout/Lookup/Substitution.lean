import GlyphLayout.Lookup.Context
import GlyphLayout.Outcome

/-!
# Substitution rules

Each mapping of a substitution gives one rule in each context.  A mapping with an empty side
says nothing and gives none.
-/

namespace GlyphLayout

open Feature (Glyphs Rule)
open Source (Mapping Substitution SubstitutionKind)

/-- The rule for a mapping, if its sides have as many items as the shape asks for. -/
def substitutionRule (kind : SubstitutionKind) (context : Feature.Context)
    (input output : List Glyphs) : Option Rule :=
  match kind, input, output with
  | .single, [target], [replacement] => some (.singleSub context target replacement)
  | .reverse, [target], [replacement] => some (.reverseSub context target replacement)
  | .multiple, [target], replacement => some (.multipleSub context target replacement)
  | .ligature, components, [replacement] => some (.ligatureSub context components replacement)
  | _, _, _ => none

namespace Definitions

variable (definitions : Definitions)

/-- The rule for a mapping in a context. -/
def mappingRule (kind : SubstitutionKind) (context : RuleContext) (mapping : Mapping) :
    Outcome (Option Rule) := do
  if mapping.input.isEmpty || mapping.output.isEmpty then
    Outcome.tell (.emptySubstitution mapping.location)
    return none
  else
    let input ← definitions.resolve mapping.location mapping.input
    if context.ignored then
      return some (.ignoreSub context.context input)
    else
      let output ← definitions.resolve mapping.location mapping.output
      match substitutionRule kind context.context input output with
      | some rule => return some rule
      | none =>
          Outcome.fail
            (.substitutionArity kind input.length output.length mapping.location)

/-- The rules of a substitution in a context. -/
def substitutionRules (substitution : Substitution) (context : RuleContext) :
    Outcome (List Rule) := do
  let rules ← substitution.mappings.mapM (definitions.mappingRule substitution.kind context)
  return rules.filterMap id

end Definitions
end GlyphLayout
