import GlyphLayout.Lookup.Attachment
import GlyphLayout.Lookup.Pair

/-!
# Positioning rules

A positioning lookup has plain rules, which position glyphs wherever they stand, and input
sequences, which stand for the same glyphs in contextual rules.
-/

namespace GlyphLayout

open Feature (Glyphs Rule)
open Source (Location Positioning)

/-- The plain rules of a positioning, and the marks that they attach. -/
structure PlainRules where
  rules : List Rule
  marks : List MarkMember := []
deriving Repr

namespace Definitions

variable (definitions : Definitions)

/-- The plain rules of a positioning. -/
def plainRules (location : Location) : Positioning → Except ConversionError PlainRules
  | .pairs firsts seconds pairs => do
      let pairs ← definitions.pairRules location firsts seconds pairs
      return { rules := pairs.map PairRule.rule }
  | .singles adjustments => do
      let rules ← adjustments.mapM fun (coverage, placement) => do
        let target ← definitions.resolveCollapsed location coverage
        return .single target (.ofPlacement placement)
      return { rules }
  | .attach bases marks => do
      let members ← definitions.attachedMarks location marks
      let rules ← definitions.attachmentRules location bases (marks.map Prod.snd)
      return { rules, marks := members }
  | .cursive exits entries => do
      return { rules := ← definitions.cursiveRules location exits entries }

/-- The input sequences of a positioning. -/
def inputSequences (location : Location) :
    Positioning → Except ConversionError (List (List Glyphs))
  | .pairs firsts seconds pairs =>
      pairs.mapM fun pair => do
        let (first, second) ← pairCoverages location firsts seconds pair
        let firstGlyphs ← definitions.resolveCollapsed location first
        let secondGlyphs ← definitions.resolveCollapsed location second
        return [firstGlyphs, secondGlyphs]
  | .singles adjustments => do
      return [[.flatten (← definitions.resolveSequence location (adjustments.map Prod.fst))]]
  | .attach _ marks => do
      return [[.flatten (← definitions.resolveSequence location (marks.map Prod.fst))]]
  | .cursive _ _ => return []

end Definitions
end GlyphLayout
