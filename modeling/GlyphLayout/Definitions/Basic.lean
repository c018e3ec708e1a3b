import GlyphLayout.Definitions.GlyphOrder
import GlyphLayout.Definitions.MarkPlace
import GlyphLayout.Error
import GlyphLayout.Feature.Document
import GlyphLayout.Identifier
import GlyphLayout.Text.Lowercase

/-!
# Definitions

Everything that the lookups of a project may refer to.  Groups are found by their lowercased
names; glyphs, anchors and mark classes by their names as they are written.
-/

namespace GlyphLayout

open Source (Location)

/-- What the definition of a glyph says. -/
structure GlyphEntry where
  id : UInt16
  /-- The name that a feature file uses. -/
  outputName : String
deriving Repr, DecidableEq

/-- A group of glyphs. -/
structure Group where
  /-- The name of its class in a feature file. -/
  className : String
  members : List Feature.Glyphs
  /-- Every glyph of the group by the name that the project uses. -/
  glyphs : List String
deriving Repr, DecidableEq

/-- The lookups of a feature in one language system. -/
structure FeatureLookups where
  lookups : List String
  location : Location
deriving Repr, DecidableEq

/-- The lookups by feature, script and language. -/
abbrev LanguageSystems :=
  OrderedMap Tag (OrderedMap Tag (OrderedMap Tag FeatureLookups))

/-- What the statements of a project other than lookups define. -/
structure Definitions where
  glyphOrder : Option GlyphOrder
  glyphs : OrderedMap String GlyphEntry := ∅
  /-- The name of the first glyph that is defined with an id. -/
  namesById : OrderedMap UInt16 String := ∅
  glyphClasses : Feature.GlyphDefinitions := {}
  marks : List String := []
  /-- The number of components of each ligature. -/
  ligatures : OrderedMap String UInt16 := ∅
  groups : OrderedMap String Group := ∅
  features : LanguageSystems := ∅
  /-- The anchors by glyph, name and component. -/
  anchors : OrderedMap String (OrderedMap String (SortedMap UInt16 Feature.Anchor)) := ∅
  markAnchors : SortedMap MarkPlace Feature.Anchor := ∅
  /-- The class of a feature file for each mark class. -/
  markClasses : OrderedMap String String := ∅
  settings : OrderedMap String (List Int32) := ∅
  /-- The names given to groups and mark classes so far. -/
  classNames : IdentifierPool := ⟨.className, ∅⟩

namespace Definitions

variable (definitions : Definitions)

/-- The group of the given name, in any case. -/
def group (name : String) (location : Location) : Except ConversionError Group :=
  match definitions.groups.get? (Text.lowercase name) with
  | some group => .ok group
  | none => .error (.undefinedGroup name location)

/-- The glyph is a mark. -/
def isMark (glyph : String) : Bool :=
  definitions.marks.contains glyph

/-- The number of components of a ligature. -/
def ligatureComponents? (glyph : String) : Option UInt16 :=
  definitions.ligatures.get? glyph

/-- The places of an anchor of a glyph by component. -/
def anchor? (glyph name : String) : Option (SortedMap UInt16 Feature.Anchor) :=
  (definitions.anchors.get? glyph).bind (·.get? name)

/-- The class of a feature file for a mark class. -/
def markClassName? (markClass : String) : Option String :=
  definitions.markClasses.get? markClass

/--
The mark has an anchor for the class.  Among the places in order, the first that is not in
front of component zero of the member belongs to the member if any does.
-/
def hasMarkAnchor (member : MarkMember) : Bool :=
  match definitions.markAnchors.firstFrom? ⟨member, 0⟩ with
  | some (place, _) => place.member == member
  | none => false

/-- Positioning lookups have the extension type. -/
def useExtension : Bool :=
  definitions.settings.contains "COMPILER_USEEXTENSIONLOOKUPS"

end Definitions
end GlyphLayout
