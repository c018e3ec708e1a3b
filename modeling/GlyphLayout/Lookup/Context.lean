import GlyphLayout.Definitions.Coverage
import GlyphLayout.Feature.Rule

/-!
# Contexts and flags of lookups

The contexts of a lookup in the terms of a feature file.  A lookup whose only context rules it
out applies everywhere else, so it has a second context that holds everywhere.
-/

namespace GlyphLayout

open Source (ContextDefinition LookupDefinition)

/-- A context for which the rules of a lookup are written. -/
structure RuleContext where
  context : Feature.Context := {}
  /-- The lookup does not apply here. -/
  ignored : Bool := false
deriving Repr, DecidableEq

namespace RuleContext

/-- It takes contextual rules to write the lookup in this context. -/
def isContextual (context : RuleContext) : Bool :=
  context.ignored || context.context.isContextual

/-- The context that holds everywhere and is still written with contextual rules. -/
def elsewhere : RuleContext :=
  ⟨{ forced := true }, false⟩

end RuleContext

namespace Definitions

variable (definitions : Definitions)

/-- A context of a lookup, resolved. -/
def ruleContext (lookup : LookupDefinition) (context : ContextDefinition) :
    Except ConversionError RuleContext := do
  let backtrack ← definitions.resolveSequence lookup.location context.left
  let lookahead ← definitions.resolveSequence lookup.location context.right
  return ⟨{ backtrack, lookahead }, context.kind == .except⟩

/-- The contexts for which the rules of a lookup are written. -/
def ruleContexts (lookup : LookupDefinition) : Except ConversionError (List RuleContext) :=
  match lookup.contexts with
  | [] => return [{}]
  | [only] => do
      let context ← definitions.ruleContext lookup only
      return if context.ignored then [context, .elsewhere] else [context]
  | several => several.mapM (definitions.ruleContext lookup)

/-- The flags of a lookup. -/
def lookupFlags (lookup : LookupDefinition) : Except ConversionError Feature.Flags := do
  let flags : Feature.Flags := {
    rightToLeft := lookup.direction == some .rightToLeft
    ignoreBases := !lookup.processBase }
  match lookup.marks with
  | .all => return flags
  | .none => return { flags with ignoreMarks := true }
  | .attachment name =>
      let group ← definitions.group name lookup.location
      return { flags with markAttachment := some group.className }
  | .filterSet name =>
      let group ← definitions.group name lookup.location
      return { flags with markFiltering := some group.className }

end Definitions
end GlyphLayout
