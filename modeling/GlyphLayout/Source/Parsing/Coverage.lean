import GlyphLayout.Source.Parsing.Basic
import GlyphLayout.Source.Statement

/-!
# Reading coverages

A coverage is read up to the first token that starts no item.  Enumerations may stand inside
one another to any depth; the items in front of each open one wait until it is closed.
-/

namespace GlyphLayout
namespace Source
namespace Parser

/-- A coverage that is being read. -/
structure OpenCoverage where
  /-- The items in front of each open enumeration, innermost first, each list reversed. -/
  outer : List Coverage
  /-- The items of the innermost enumeration so far, reversed. -/
  items : Coverage

namespace OpenCoverage

/-- Adds an item to the innermost enumeration. -/
def push (state : OpenCoverage) (item : CoverageItem) : OpenCoverage :=
  { state with items := item :: state.items }

/-- Opens an enumeration. -/
def enter (state : OpenCoverage) : OpenCoverage :=
  ⟨state.items :: state.outer, []⟩

end OpenCoverage

/-- The words that start a coverage item. -/
inductive ItemWord where
  | glyph
  | group
  | range
  | enumeration
deriving Repr, DecidableEq

/-- The item that a word starts. -/
def itemWord? : Lexeme → Option ItemWord
  | .word "GLYPH" => some .glyph
  | .word "GROUP" => some .group
  | .word "RANGE" => some .range
  | .word "ENUM" => some .enumeration
  | _ => none

/-- Reads the next item, or the start or end of an enumeration. -/
def coverageStep (state : OpenCoverage) : Parser (Option OpenCoverage) := do
  match ← take? itemWord? with
  | some (.glyph, _) => return some (state.push (.glyph (← name)))
  | some (.group, _) => return some (state.push (.group (← name)))
  | some (.range, _) =>
      let first ← name
      keyword "TO"
      return some (state.push (.range first (← name)))
  | some (.enumeration, _) => return some state.enter
  | none =>
      match state.outer with
      | [] => return none
      | items :: outer =>
          keyword "END_ENUM"
          return some ⟨outer, .enumeration state.items.reverse :: items⟩

/-- Reads a coverage. -/
def coverage : Parser Coverage := do
  return (← iterate coverageStep ⟨[], []⟩).items.reverse

end Parser
end Source
end GlyphLayout
