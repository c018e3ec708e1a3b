import GlyphLayout.Device
import GlyphLayout.Source.Location
import GlyphLayout.Tag

/-!
# Statements

A layout source is a list of definitions.  References to glyphs, groups, anchors and lookups
are kept as they are written, since what they name may be defined later in the source.
-/

namespace GlyphLayout
namespace Source

/-- The class that the definition of a glyph gives it. -/
inductive GlyphKind where
  | base
  | ligature
  | mark
  | component
deriving Repr, DecidableEq

/-- The definition of a glyph. -/
structure GlyphDefinition where
  name : String
  id : UInt16
  /-- The code points that the glyph stands for. -/
  codePoints : List UInt32
  kind : Option GlyphKind
  /-- The number of parts of a ligature. -/
  components : Option UInt16
  location : Location
deriving Repr, DecidableEq

/-- One element of a coverage. -/
inductive CoverageItem where
  /-- A single glyph. -/
  | glyph (name : String)
  /-- All glyphs of a group. -/
  | group (name : String)
  /-- A list of items in the place of one. -/
  | enumeration (items : List CoverageItem)
  /-- All glyphs from one to another, in the order of the font. -/
  | range (first last : String)
deriving Repr

/-- A sequence of coverage items. -/
abbrev Coverage := List CoverageItem

/-- The definition of a group of glyphs. -/
structure GroupDefinition where
  name : String
  members : Coverage
  location : Location
deriving Repr

/-- The lookups that a feature uses in one language system. -/
structure FeatureDefinition where
  title : Option String
  tag : Tag
  /-- The names of the lookups, in the order in which they are given. -/
  lookups : List String
  location : Location
deriving DecidableEq

/-- A language of a script, with its features. -/
structure LanguageDefinition where
  title : Option String
  tag : Tag
  features : List FeatureDefinition
  location : Location
deriving DecidableEq

/-- A script, with its languages. -/
structure ScriptDefinition where
  title : Option String
  tag : Tag
  languages : List LanguageDefinition
  location : Location
deriving DecidableEq

/-- The direction in which a lookup goes through a text. -/
inductive Direction where
  | leftToRight
  | rightToLeft
deriving Repr, DecidableEq

/-- The marks that a lookup sees. -/
inductive MarkFilter where
  /-- Every mark. -/
  | all
  /-- No mark. -/
  | none
  /-- The marks of a group, as an attachment class. -/
  | attachment (group : String)
  /-- The marks of a group, as a filtering set. -/
  | filterSet (group : String)
deriving Repr, DecidableEq

/-- Whether a context admits a lookup or rules it out. -/
inductive ContextKind where
  | within
  | except
deriving Repr, DecidableEq

/-- The surroundings in which a lookup applies, or does not. -/
structure ContextDefinition where
  kind : ContextKind
  /-- The coverages in front of the input, from the outermost in. -/
  left : List Coverage
  /-- The coverages behind the input, from the innermost out. -/
  right : List Coverage
deriving Repr

/-- The shape of a substitution. -/
inductive SubstitutionKind where
  | single
  | multiple
  | ligature
  | reverse
deriving Repr, DecidableEq

/-- What a message calls the shape of a substitution. -/
def SubstitutionKind.text : SubstitutionKind → String
  | single => "single"
  | multiple => "multiple"
  | ligature => "ligature"
  | reverse => "reverse chaining single"

/-- What one sequence of glyphs is replaced by. -/
structure Mapping where
  input : Coverage
  output : Coverage
  location : Location
deriving Repr

/-- The replacements of a lookup. -/
structure Substitution where
  kind : SubstitutionKind
  mappings : List Mapping
  location : Location
deriving Repr

/-- How far a glyph is moved, and how its advance changes. -/
structure Placement where
  advance : Option Int16 := none
  dx : Option Int16 := none
  dy : Option Int16 := none
  advanceDevices : List DeviceAdjustment := []
  xDevices : List DeviceAdjustment := []
  yDevices : List DeviceAdjustment := []
deriving Repr, DecidableEq

/-- Nothing is given. -/
def Placement.isEmpty (placement : Placement) : Bool :=
  placement.advance.isNone && placement.dx.isNone && placement.dy.isNone
    && placement.advanceDevices.isEmpty && placement.xDevices.isEmpty
    && placement.yDevices.isEmpty

/-- The placement of two neighbours; the indices count from one. -/
structure PairAdjustment where
  first : UInt16
  second : UInt16
  firstPlacement : Placement
  secondPlacement : Placement
deriving Repr, DecidableEq

/-- What a positioning lookup does. -/
inductive Positioning where
  /-- Places pairs, which refer to two lists of coverages by index. -/
  | pairs (first second : List Coverage) (adjustments : List PairAdjustment)
  /-- Places single glyphs. -/
  | singles (adjustments : List (Coverage × Placement))
  /-- Attaches marks of the named classes to bases. -/
  | attach (bases : Coverage) (marks : List (Coverage × String))
  /-- Joins the exit of a glyph to the entry of the next. -/
  | cursive (exits entries : List Coverage)
deriving Repr

/-- What a lookup does. -/
inductive Payload where
  | substitution (substitution : Substitution)
  | positioning (positioning : Positioning)
deriving Repr

/-- The definition of a lookup. -/
structure LookupDefinition where
  name : String
  /-- The lookup sees base glyphs. -/
  processBase : Bool
  marks : MarkFilter
  direction : Option Direction
  /-- The lookup goes through a text from its end. -/
  reversal : Bool
  comments : Option String
  contexts : List ContextDefinition
  payload : Payload
  location : Location
deriving Repr

/-- The definition of an anchor of a glyph. -/
structure AnchorDefinition where
  name : String
  glyphId : UInt16
  glyph : String
  /-- The part of a ligature that has the anchor, counted from one. -/
  component : UInt16
  locked : Bool
  placement : Placement
  location : Location
deriving Repr, DecidableEq

/-- A setting of the whole project, with its values. -/
structure Setting where
  name : String
  values : List Int32
  location : Location
deriving Repr, DecidableEq

/-- A definition of a layout source. -/
inductive Statement where
  | glyph (definition : GlyphDefinition)
  | group (definition : GroupDefinition)
  | script (definition : ScriptDefinition)
  | lookup (definition : LookupDefinition)
  | anchor (definition : AnchorDefinition)
  | setting (definition : Setting)

/-- The place of the word that opens a definition. -/
def Statement.location : Statement → Location
  | glyph definition => definition.location
  | group definition => definition.location
  | script definition => definition.location
  | lookup definition => definition.location
  | anchor definition => definition.location
  | setting definition => definition.location

/-- The shape of the substitutions of a statement, set to `kind`. -/
def Statement.withSubstitutionKind (kind : SubstitutionKind) : Statement → Statement
  | lookup definition =>
      match definition.payload with
      | .substitution substitution =>
          lookup { definition with payload := .substitution { substitution with kind } }
      | .positioning _ => lookup definition
  | statement => statement

end Source
end GlyphLayout
