import GlyphLayout.Lookup.Context
import GlyphLayout.Outcome

/-!
# Pair positioning

Pairs refer to two lists of coverages by indices that count from one.  A pair is written as a
pair of classes only when every item on both sides is a group; otherwise it stands for each
pair of glyphs.
-/

namespace GlyphLayout

open Feature (Rule Value)
open Source (Coverage CoverageItem Location PairAdjustment Placement)

/-- A placement as a value record. -/
def Feature.Value.ofPlacement (placement : Placement) : Value where
  x := placement.dx
  y := placement.dy
  advance := placement.advance
  xDevices := placement.xDevices
  yDevices := placement.yDevices
  advanceDevices := placement.advanceDevices

/-- The item is a group. -/
def Source.CoverageItem.isGroup : CoverageItem → Bool
  | .group _ => true
  | _ => false

/-- The element of a list at an index that counts from one. -/
def nthFromOne? {α : Type} (items : List α) (index : UInt16) : Option α :=
  if index = 0 then none else items[index.toNat - 1]?

/-- The two coverages of a pair. -/
def pairCoverages (location : Location) (firsts seconds : List Coverage)
    (pair : PairAdjustment) : Except ConversionError (Coverage × Coverage) :=
  match nthFromOne? firsts pair.first, nthFromOne? seconds pair.second with
  | some first, some second => .ok (first, second)
  | _, _ =>
      .error (.pairOutOfRange pair.first pair.second firsts.length seconds.length location)

/-- A rule for a pair, with the coverages that it comes from. -/
structure PairRule where
  first : Coverage
  second : Coverage
  rule : Rule
deriving Repr

/-- Both sides of the pair are single glyphs, or both are single groups. -/
def countsOnce : Coverage → Coverage → Bool
  | [.glyph _], [.glyph _] => true
  | [.group _], [.group _] => true
  | _, _ => false

/-- The glyphs that stand in several of some sets, in order of their first repetition. -/
def repeatedGlyphs (seen : List String) : List (List String) → List String
  | [] => []
  | glyphs :: rest =>
      glyphs.filter (seen.contains ·) ++ repeatedGlyphs (seen ++ glyphs) rest

/-- Glyphs in ascending order, each once. -/
def ascending (glyphs : List String) : List String :=
  (glyphs.foldl (fun known glyph => known.insert glyph ()) (∅ : SortedMap String Unit)).entries.map
    Prod.fst

namespace Definitions

variable (definitions : Definitions)

/-- The rule for a pair. -/
def pairRule (location : Location) (firsts seconds : List Coverage) (pair : PairAdjustment) :
    Except ConversionError PairRule := do
  let (first, second) ← pairCoverages location firsts seconds pair
  let firstGlyphs ← definitions.resolveCollapsed location first
  let secondGlyphs ← definitions.resolveCollapsed location second
  let enumerated := (first ++ second).any fun item => !item.isGroup
  return ⟨first, second, .pair enumerated firstGlyphs (.ofPlacement pair.firstPlacement)
    secondGlyphs (.ofPlacement pair.secondPlacement)⟩

/-- The rules for some pairs. -/
def pairRules (location : Location) (firsts seconds : List Coverage)
    (pairs : List PairAdjustment) : Except ConversionError (List PairRule) :=
  pairs.mapM (definitions.pairRule location firsts seconds)

/-- How much a pair adds to the size of a subtable. -/
def pairSize (location : Location) (pair : PairRule) : Except ConversionError Nat := do
  if countsOnce pair.first pair.second then
    return 1
  else
    let first ← definitions.glyphCount location pair.first
    let second ← definitions.glyphCount location pair.second
    return first * second

/-- Reports the glyphs that several classes of one side of a pair positioning share. -/
def reportOverlaps (location : Location) (lookup : String) (side : Side)
    (coverages : List Coverage) : Outcome Unit := do
  let sets ← Outcome.ofExcept (coverages.mapM (definitions.expand location))
  let shared := ascending (repeatedGlyphs [] (sets.filter (2 ≤ ·.length)))
  Outcome.tellIf (!shared.isEmpty) (.overlappingClasses location side lookup shared)

end Definitions
end GlyphLayout
