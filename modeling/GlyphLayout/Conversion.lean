import GlyphLayout.Assembly.Document

/-!
# Conversion

From the text of a project to a feature file: the text is read, its definitions are collected,
its lookups are compiled against them, and the feature file is assembled.
-/

namespace GlyphLayout

open Feature (Document)
open Source (Statement)

/-- The feature file for the statements of a project. -/
def convert (statements : List Statement) (glyphOrder : Option GlyphOrder) (options : Options) :
    Outcome Document := do
  let definitions ← Definitions.collect statements glyphOrder
  let state ← Compilation.ofStatements definitions options statements
  assemble definitions state

/-- The statements of the text of a project. -/
def readSource (text : String) : Outcome (List Statement) :=
  match Source.parse text with
  | .ok statements => return statements
  | .error cause => Outcome.fail (.invalidSource cause)

/-- The text of the feature file for the text of a project. -/
def convertText (text : String) (glyphOrder : Option GlyphOrder) (options : Options) :
    Outcome String := do
  let statements ← readSource text
  Outcome.tell (.parsed statements.length)
  return (← convert statements glyphOrder options).text

end GlyphLayout
