import GlyphLayout.Feature.Rule
import GlyphLayout.Tag

/-!
# Feature files

The blocks of a feature file, and the file as text: glyph classes, mark classes, lookups,
features and the table of glyph classes, each section behind a heading of its own and empty
sections left out.
-/

namespace GlyphLayout
namespace Feature

open Text (joined)

/-- A lookup block. -/
structure Lookup where
  name : String
  /-- The lookup has the extension type. -/
  useExtension : Bool := false
  rules : List Rule := []
deriving Repr, DecidableEq

/-- A lookup block as text. -/
def Lookup.text (lookup : Lookup) : String :=
  "lookup " ++ lookup.name ++ (if lookup.useExtension then " useExtension" else "") ++ " \x7b\n"
    ++ joined "" (lookup.rules.map fun rule => indent ++ rule.text ++ "\n")
    ++ "\x7d " ++ lookup.name ++ ";"

/-- The definition of a class of glyphs. -/
structure GlyphClass where
  name : String
  members : List Glyphs
deriving Repr, DecidableEq

/-- The definition of a class of glyphs as text. -/
def GlyphClass.text (definition : GlyphClass) : String :=
  "@" ++ definition.name ++ " = [" ++ joined " " (Glyphs.texts definition.members) ++ "];"

/-- The statement that puts a mark into a mark class. -/
structure MarkClass where
  glyph : Glyphs
  anchor : Anchor
  className : String
  /-- Some rule attaches the mark; otherwise the statement is a comment. -/
  used : Bool
deriving Repr, DecidableEq

/-- The statement that puts a mark into a mark class as text. -/
def MarkClass.text (definition : MarkClass) : String :=
  (if definition.used then "" else "#") ++ "markClass " ++ definition.glyph.text ++ " "
    ++ definition.anchor.text ++ " @" ++ definition.className ++ ";"

/-- The lookups of a feature in one language system. -/
structure LanguageSystem where
  script : Tag
  language : Tag
  lookups : List String
deriving DecidableEq

/-- A feature block. -/
structure FeatureBlock where
  tag : Tag
  systems : List LanguageSystem
deriving DecidableEq

/-- The statements of language systems, where `current` is the script set before them. -/
def systemLines (current : Option Tag) : List LanguageSystem → List String
  | [] => []
  | system :: rest =>
      (if current = some system.script then [] else ["script " ++ system.script.name ++ ";"])
        ++ ["language " ++ system.language.name ++ ";"]
        ++ system.lookups.map (fun lookup => "lookup " ++ lookup ++ ";")
        ++ systemLines (some system.script) rest

/-- A feature block as text. -/
def FeatureBlock.text (block : FeatureBlock) : String :=
  "feature " ++ block.tag.name ++ " \x7b\n"
    ++ joined "" ((systemLines none block.systems).map fun line => indent ++ line ++ "\n")
    ++ "\x7d " ++ block.tag.name ++ ";"

/-- The glyphs of each class of the glyph definition table. -/
structure GlyphDefinitions where
  base : List Glyphs := []
  ligature : List Glyphs := []
  mark : List Glyphs := []
  component : List Glyphs := []
deriving Repr, DecidableEq

namespace GlyphDefinitions

/-- No glyph has a class. -/
def isEmpty (definitions : GlyphDefinitions) : Bool :=
  definitions.base.isEmpty && definitions.ligature.isEmpty && definitions.mark.isEmpty
    && definitions.component.isEmpty

/-- The glyphs of one class; nothing if there are none. -/
def slotText (glyphs : List Glyphs) : String :=
  if glyphs.isEmpty then "" else (Glyphs.inline glyphs).text

/-- The glyph definition table as text. -/
def text (definitions : GlyphDefinitions) : String :=
  let slots :=
    [definitions.base, definitions.ligature, definitions.mark, definitions.component]
  "table GDEF \x7b\n" ++ indent ++ "GlyphClassDef " ++ joined ", " (slots.map slotText)
    ++ ";\n\x7d GDEF;"

end GlyphDefinitions

/-- A feature file. -/
structure Document where
  glyphClasses : List GlyphClass := []
  markClasses : List MarkClass := []
  lookups : List Lookup := []
  features : List FeatureBlock := []
  definitions : Option GlyphDefinitions := none
deriving DecidableEq

namespace Document

/-- A section with its heading, unless it is empty. -/
def titled (title separator : String) (items : List String) : List String :=
  if items.isEmpty then [] else ["# " ++ title ++ "\n" ++ joined separator items ++ "\n"]

/-- The sections of a feature file that are not empty. -/
def sections (document : Document) : List String :=
  titled "Glyph classes" "\n" (document.glyphClasses.map GlyphClass.text)
    ++ titled "Mark classes" "\n" (document.markClasses.map MarkClass.text)
    ++ titled "Lookups" "\n\n" (document.lookups.map Lookup.text)
    ++ titled "Features" "\n\n" (document.features.map FeatureBlock.text)
    ++ (document.definitions.filter (!·.isEmpty)).toList.map (·.text ++ "\n")

/-- A feature file as text. -/
def text (document : Document) : String :=
  joined "\n" document.sections

end Document
end Feature
end GlyphLayout
