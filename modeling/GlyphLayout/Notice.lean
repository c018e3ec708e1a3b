import GlyphLayout.Error
import GlyphLayout.Text.Joined

/-!
# Notices

What a conversion reports besides its result.  Each notice has a level, by which notices are
shown or held back.
-/

namespace GlyphLayout

open Source (Location)

/-- How important a notice is. -/
inductive Level where
  | error
  | warn
  | info
  | debug
  | trace
deriving Repr, DecidableEq

namespace Level

/-- The place of a level among all, the most important first. -/
def rank : Level → Nat
  | error => 1
  | warn => 2
  | info => 3
  | debug => 4
  | trace => 5

/-- The name of a level in a log. -/
def text : Level → String
  | error => "ERROR"
  | warn => "WARN"
  | info => "INFO"
  | debug => "DEBUG"
  | trace => "TRACE"

end Level

/-- The two lists of coverages of a pair positioning. -/
inductive Side where
  | first
  | second
deriving Repr, DecidableEq

/-- What a message calls the list. -/
def Side.text : Side → String
  | first => "FIRST"
  | second => "SECOND"

/-- A report on a conversion. -/
inductive Notice where
  | parsed (statements : Nat)
  | groupRedefined (location : Location) (name : String)
  /-- An anchor has device adjustments of an advance, which anchors do not have. -/
  | advanceDevicesDropped (location : Location) (anchor glyph : String)
  | settingIgnored (name : String)
  | collected (glyphs groups anchored features : Nat)
  /-- A mapping with an empty side is left out. -/
  | emptySubstitution (location : Location)
  /-- Several classes of one side of a pair positioning share the glyphs. -/
  | overlappingClasses (location : Location) (side : Side) (lookup : String)
      (glyphs : List String)
  /-- A construct is skipped; said once for each construct. -/
  | constructSkipped (location : Location) (construct : Construct)
  | lookupRedefined (name : String)
  /-- A contextual lookup positions glyphs through a lookup of its own. -/
  | helperAdded (lookup label : String)
  | pairsSplit (lookup : String) (pieces limit : Nat)
  | lookupsDone (lookups : Nat)
  /-- A lookup is named as a subtable but cannot be one. -/
  | strayPiece (name : String)
  /-- The flags of a subtable give way to those of the first one. -/
  | flagsDiffer (piece first : String)
  | piecesMerged (pieces : Nat) (label : String)
  /-- A feature refers to a lookup that is a subtable of another. -/
  | pieceReferenced (lookup : String)
  | plainText (path : String)
  | fontFound (path : String) (glyphs : Nat)
  | fontWithoutSource (path : String)
  | written (path : String)
  | failed (error : ConversionError)
deriving DecidableEq

namespace Notice

/-- How important the notice is. -/
def level : Notice → Level
  | groupRedefined .. | advanceDevicesDropped .. | settingIgnored .. | emptySubstitution ..
  | overlappingClasses .. | constructSkipped .. | lookupRedefined .. | strayPiece ..
  | flagsDiffer .. | fontWithoutSource .. => .warn
  | parsed .. | collected .. | helperAdded .. | pairsSplit .. | lookupsDone .. | piecesMerged ..
  | pieceReferenced .. | plainText .. | fontFound .. => .debug
  | written .. => .info
  | failed .. => .error

/-- The notice, in words. -/
def message : Notice → String
  | parsed statements => s!"parsed {statements} statements"
  | groupRedefined location name => s!"{location}: group '{name}' is redefined"
  | advanceDevicesDropped location anchor glyph =>
      s!"{location}: anchor '{anchor}' on '{glyph}': "
        ++ "anchor advance device adjustments are dropped"
  | settingIgnored name => s!"Unsupported setting ignored: {name}"
  | collected glyphs groups anchored features =>
      s!"collected {glyphs} glyphs, {groups} groups, {anchored} anchored glyphs, "
        ++ s!"{features} features"
  | emptySubstitution location => s!"{location}: Ignoring empty substitution"
  | overlappingClasses location side lookup glyphs =>
      s!"{location}: kerning classes in {side.text} of '{lookup}' overlap on: "
        ++ Text.joined " " glyphs
  | constructSkipped location construct =>
      s!"{location}: {construct.text} is not supported, skipping it"
  | lookupRedefined name => s!"lookup '{name}' is defined more than once"
  | helperAdded lookup label => s!"'{lookup}' applies positioning through '{label}'"
  | pairsSplit lookup pieces limit =>
      s!"splitting '{lookup}' into {pieces} subtables of at most {limit} pairs"
  | lookupsDone lookups => s!"translated {lookups} lookups"
  | strayPiece name =>
      "Lookup should be a subtable, but feature files allow subtables only in pair "
        ++ s!"positioning lookups: {name}"
  | flagsDiffer piece first =>
      s!"subtable '{piece}' has different lookup flags from '{first}', using those of '{first}'"
  | piecesMerged pieces label => s!"merging {pieces} subtables into '{label}'"
  | pieceReferenced lookup => s!"'{lookup}' is a subtable of an earlier lookup"
  | plainText path => s!"'{path}' is not a font, reading it as VOLT text"
  | fontFound path glyphs => s!"'{path}' is a font with {glyphs} glyphs"
  | fontWithoutSource path => s!"'{path}' has no TSIV table, reading it as VOLT text"
  | written path => s!"wrote {path}"
  | failed error => error.message

/-- The notice as a line of a log. -/
def line (notice : Notice) : String :=
  s!"{notice.level.text}: {notice.message}"

end Notice
end GlyphLayout
