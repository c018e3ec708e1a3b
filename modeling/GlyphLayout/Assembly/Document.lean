import GlyphLayout.Assembly.Features
import GlyphLayout.Definitions.Collect

/-!
# Assembling feature files

A feature file has the groups of a project as glyph classes, its mark anchors as mark classes,
and the lookups and features that refer to them.
-/

namespace GlyphLayout

open Feature (Document)

namespace Definitions

/-- The glyph classes of a feature file, one for each group. -/
def glyphClassBlocks (definitions : Definitions) : List Feature.GlyphClass :=
  definitions.groups.values.map fun group => ⟨group.className, group.members⟩

/-- The mark class statements of a feature file, one for each place of a mark. -/
def markClassBlocks (definitions : Definitions) (state : Compilation) : List Feature.MarkClass :=
  definitions.markAnchors.entries.map fun (place, anchor) => {
    glyph := .glyph (definitions.outputName place.member.glyph)
    anchor
    className := (definitions.markClassName? place.member.markClass).getD place.member.markClass
    used := state.uses place.member }

end Definitions

/-- The feature file for some definitions and the lookups that refer to them. -/
def assemble (definitions : Definitions) (state : Compilation) : Outcome Document := do
  let merged ← state.merge
  let features ← merged.featureBlocks definitions.features
  return {
    glyphClasses := definitions.glyphClassBlocks
    markClasses := definitions.markClassBlocks state
    lookups := merged.blocks
    features
    definitions :=
      if definitions.glyphClasses.isEmpty then none else some definitions.glyphClasses }

end GlyphLayout
