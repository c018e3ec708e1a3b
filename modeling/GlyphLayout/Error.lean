import GlyphLayout.Source.Parsing.Statement

/-!
# Errors

The reasons for which a project cannot be converted, and their wording.
-/

namespace GlyphLayout

open Source (Location SubstitutionKind SyntaxError)

/-- Something a source may ask for and a feature file cannot express. -/
inductive Construct where
  /-- A positioning lookup with contexts goes through a text from its end. -/
  | contextualReversal
  /-- A cursive attachment has contexts. -/
  | contextualCursive
deriving Repr, DecidableEq

/-- What a message calls the construct. -/
def Construct.text : Construct → String
  | contextualReversal => "REVERSAL in a contextual positioning lookup"
  | contextualCursive => "ATTACH_CURSIVE in a contextual lookup"

/-- Why the glyph order of a font cannot be read. -/
inductive FontError where
  /-- A table is missing. -/
  | missingTable (tag : String)
  /-- A table is too short. -/
  | outOfBounds
  /-- Some glyph has no name. -/
  | missingNames
deriving Repr, DecidableEq

/-- Why the glyph order cannot be read, in words. -/
def FontError.message : FontError → String
  | missingTable tag => s!"Failed to read font data: 'the {tag} table is missing'"
  | outOfBounds => "Failed to read font data: 'An offset was out of bounds'"
  | missingNames => "The post table exists, but did not include all glyph names"

/-- Why a file cannot be read or written. -/
inductive FileError where
  | notFound
  | isDirectory
  | notDirectory
  | other (text : String)
deriving Repr, DecidableEq

/-- Why the file cannot be read or written, in the words of the operating system. -/
def FileError.message : FileError → String
  | notFound => "No such file or directory (os error 2)"
  | isDirectory => "Is a directory (os error 21)"
  | notDirectory => "Not a directory (os error 20)"
  | other text => text

/-- Why a project cannot be converted. -/
inductive ConversionError where
  /-- A feature is defined twice for one language system. -/
  | duplicateLanguageSystem (feature script language : Tag) (location : Location)
  | undefinedGroup (name : String) (location : Location)
  /-- A mark has no anchor for a mark class. -/
  | undefinedMarkAnchor (glyph markClass : String) (location : Location)
  | undefinedAnchor (glyph anchor : String) (location : Location)
  | undefinedLookup (name : String) (feature : Tag) (location : Location)
  /-- A mapping has too many items on a side for the shape of its substitution. -/
  | substitutionArity (kind : SubstitutionKind) (input output : Nat) (location : Location)
  /-- A pair refers to a coverage that its lists do not have. -/
  | pairOutOfRange (first second : UInt16) (firsts seconds : Nat) (location : Location)
  | unsupported (construct : Construct) (location : Location)
  /-- A range cannot be expanded without the glyph order of the font. -/
  | missingGlyphOrder (glyph : String) (location : Location)
  | glyphIdOutOfRange (glyph : String) (id : UInt16) (glyphs : Nat) (location : Location)
  /-- The end of a range is not defined. -/
  | unknownRangeGlyph (glyph : String) (location : Location)
  | invalidSource (cause : SyntaxError)
  | invalidFont (path : String) (cause : FontError)
  | file (path : String) (cause : FileError)
deriving DecidableEq

/-- Why the project cannot be converted, in words. -/
def ConversionError.message : ConversionError → String
  | duplicateLanguageSystem feature script language location =>
      s!"{location}: feature '{feature.padded}' is defined more than once for script "
        ++ s!"'{script.padded}' language '{language.padded}'"
  | undefinedGroup name location => s!"{location}: reference to undefined group '{name}'"
  | undefinedMarkAnchor glyph markClass location =>
      s!"{location}: mark glyph '{glyph}' has no anchor for mark class '{markClass}'"
  | undefinedAnchor glyph anchor location =>
      s!"{location}: glyph '{glyph}' has no anchor '{anchor}'"
  | undefinedLookup name feature location =>
      s!"{location}: feature '{feature.padded}' references undefined lookup '{name}'"
  | substitutionArity kind input output location =>
      s!"{location}: {kind.text} substitution cannot map {input} item(s) to {output} item(s)"
  | pairOutOfRange first second firsts seconds location =>
      s!"{location}: pair {first.toNat} {second.toNat} is outside the {firsts}x{seconds} "
        ++ "FIRST/SECOND lists"
  | unsupported construct location => s!"{location}: {construct.text} is not supported"
  | missingGlyphOrder glyph location =>
      s!"{location}: the range starting at '{glyph}' needs the font's glyph order"
  | glyphIdOutOfRange glyph id glyphs location =>
      s!"{location}: glyph '{glyph}' has id {id.toNat}, but the font has only {glyphs} glyphs"
  | unknownRangeGlyph glyph location => s!"{location}: range endpoint '{glyph}' has no DEF_GLYPH"
  | invalidSource cause => cause.message
  | invalidFont path cause => s!"failed to read font '{path}': '{cause.message}'"
  | file path cause => s!"io failed for '{path}': '{cause.message}'"

end GlyphLayout
