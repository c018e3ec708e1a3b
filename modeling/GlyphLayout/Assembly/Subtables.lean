import GlyphLayout.Lookup.Compilation

/-!
# Subtables

The pieces of a pair positioning lookup are merged into one block, at the place of the first
of them, with a subtable break between neighbours.  All other lookups keep blocks of their
own.  Each lookup then has a label under which features refer to it, except for the pieces
that are reached through the first piece of their block.
-/

namespace GlyphLayout

open Feature (Rule)

/-- The lookups of a feature file, and the label of each lookup of the project. -/
structure MergedLookups where
  blocks : List Feature.Lookup := []
  /-- The labels by lowercased names; none for a piece that is not the first. -/
  labels : OrderedMap String (Option String) := ∅

namespace Compilation

/-- Reports the pieces that cannot be subtables. -/
def reportStrayPieces (state : Compilation) : Outcome Unit :=
  state.lookups.values.forM fun lookup =>
    Outcome.tellIf (lookup.id.isPiece && lookup.kind != .pairs) (.strayPiece lookup.sourceName)

/-- The name under which the pieces of a lookup are gathered, if the lookup can be a subtable. -/
def pieceGroup? (lookup : CompiledLookup) : Option String :=
  if lookup.id.isPiece && lookup.kind == .pairs then some (Text.lowercase lookup.id.base)
  else none

/-- The lookups that are gathered under the given name, with their keys. -/
def piecesOf (state : Compilation) (group : String) : List (String × CompiledLookup) :=
  state.lookups.entries.filter fun (_, lookup) => pieceGroup? lookup = some group

/-- The pieces that a lookup is merged with; none if it is no piece or the only one. -/
def mergeGroup? (state : Compilation) (lookup : CompiledLookup) :
    Option (List (String × CompiledLookup)) :=
  (pieceGroup? lookup).bind fun group =>
    let pieces := state.piecesOf group
    if 1 < pieces.length then some pieces else none

/-- The rules of a piece, with its name and its comments in front of them. -/
def pieceRules (piece : CompiledLookup) : List Rule :=
  .comment piece.sourceName :: (piece.commentRules ++ piece.rules)

/-- The block for a first piece and the other pieces. -/
def mergedBlock (label : String) (first : CompiledLookup) (others : List CompiledLookup) :
    Feature.Lookup where
  name := label
  useExtension := (first :: others).any (·.useExtension)
  rules := first.flagRules ++ pieceRules first
    ++ others.flatMap fun piece => .subtable :: pieceRules piece

/-- Reports the first piece whose flags differ from those of the first one. -/
def reportFlags (first : CompiledLookup) (others : List CompiledLookup) : Outcome Unit :=
  match others.find? (·.flags != first.flags) with
  | some piece => Outcome.tell (.flagsDiffer piece.sourceName first.sourceName)
  | none => return ()

/-- The blocks that have been written, with the identifiers that are left. -/
structure Merging where
  labels : IdentifierPool
  merged : MergedLookups := {}

/-- Writes the block of a lookup, unless an earlier block has it. -/
def mergeLookup (state : Compilation) (merging : Merging)
    (entry : String × CompiledLookup) : Outcome Merging := do
  let (key, lookup) := entry
  let { blocks, labels } := merging.merged
  match state.mergeGroup? lookup with
  | none =>
      return { merging with
        merged := ⟨blocks ++ [lookup.block], labels.insert key (some lookup.label)⟩ }
  | some pieces =>
      if (pieces.head?.map Prod.fst) = some key then
        let others := (pieces.drop 1).map Prod.snd
        let (label, pool) := merging.labels.identify lookup.id.base
        Outcome.tell (.piecesMerged pieces.length label)
        reportFlags lookup others
        return {
          labels := pool
          merged := ⟨blocks ++ [mergedBlock label lookup others], labels.insert key (some label)⟩ }
      else
        return { merging with merged := ⟨blocks, labels.insert key none⟩ }

/-- The blocks for all lookups. -/
def merge (state : Compilation) : Outcome MergedLookups := do
  state.reportStrayPieces
  let merging ← state.lookups.entries.foldlM state.mergeLookup { labels := state.labels }
  return merging.merged

end Compilation
end GlyphLayout
