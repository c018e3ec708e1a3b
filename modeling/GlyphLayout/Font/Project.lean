import GlyphLayout.Conversion
import GlyphLayout.Font.GlyphNames
import GlyphLayout.Text.Utf8

/-!
# Projects

A project is the text of a file, or comes in a table of a font, whose glyph order goes with
it.  A font without the table is read as text as well.
-/

namespace GlyphLayout

/-- The text of a project, and the glyph order of the font that it comes from. -/
structure Project where
  text : String
  glyphOrder : Option GlyphOrder
deriving Repr, DecidableEq

namespace Project

/-- The project that the bytes of a file hold. -/
def ofBytes (path : String) (bytes : ByteArray) : Outcome Project :=
  match Font.records? bytes with
  | none => do
      Outcome.tell (.plainText path)
      return ⟨Text.decode bytes, none⟩
  | some records =>
      match Font.glyphOrder bytes records with
      | .error cause => Outcome.fail (.invalidFont path cause)
      | .ok order => do
          Outcome.tell (.fontFound path order.size)
          match Font.table? bytes records "TSIV" with
          | some source => return ⟨Text.decode source, some order⟩
          | none =>
              Outcome.tell (.fontWithoutSource path)
              return ⟨Text.decode bytes, some order⟩

end Project

/-- The text of the feature file for what was read from a path. -/
def convertFile (path : String) (contents : Except FileError ByteArray) (options : Options) :
    Outcome String :=
  match contents with
  | .error cause => Outcome.fail (.file path cause)
  | .ok bytes => do
      let project ← Project.ofBytes path bytes
      convertText project.text project.glyphOrder options

end GlyphLayout
