import GlyphLayout.Source.Parsing.Lookup
import GlyphLayout.Text.Pieces

/-!
# Reading a source

A source is a list of definitions, which the word `END` may close.  `Source.parse` reads a
whole text or reports the first problem and its place.
-/

namespace GlyphLayout
namespace Source

open Text (uint16? uint32? int32?)

/-- The text behind all leading marks of a code point. -/
def dropCodePointMarks : List Char → List Char
  | 'U' :: '+' :: cs => dropCodePointMarks cs
  | cs => cs

/-- The code point that an entry of a list gives in hexadecimal. -/
def codePoint? (entry : List Char) : Option UInt32 :=
  uint32? 16 (dropCodePointMarks (Text.trim entry))

/-- The code points of a list with commas, or the first entry that gives none. -/
def codePoints (text : String) : Except String (List UInt32) :=
  (Text.pieces ',' text.toList).mapM fun entry =>
    match codePoint? entry with
    | some value => .ok value
    | none => .error (String.ofList entry)

/-- The kind of glyph that a word names. -/
def glyphKind? : String → Option GlyphKind
  | "BASE" => some .base
  | "LIGATURE" => some .ligature
  | "MARK" => some .mark
  | "COMPONENT" => some .component
  | _ => none

/-- The character may stand in the name of a setting. -/
def isSettingChar (c : Char) : Bool :=
  c.isUpper || c.isDigit || c == '_'

namespace Parser

/-- Whether a word gives a single code point or starts a list of them. -/
def codePointWord? : Lexeme → Option Bool
  | .word "UNICODE" => some true
  | .word "UNICODEVALUES" => some false
  | _ => none

/-- Reads the code points of a glyph, if any are given. -/
def glyphCodePoints : Parser (List UInt32) := do
  match ← take? codePointWord? with
  | none => return []
  | some (true, _) => return [← word "a unicode value" fun text => uint32? 10 text.toList]
  | some (false, _) =>
      let (text, location) ← quotedWithPlace
      match codePoints text with
      | .ok values => return values
      | .error entry => failAt location (.invalidCodePoint entry)

/-- Reads an optional part of a definition that a keyword introduces. -/
def optional {α : Type} (mark : String) (part : Parser α) : Parser (Option α) := do
  if ← keyword? mark then return some (← part) else return none

/-- Reads the definition of a glyph behind its keyword. -/
def glyph (location : Location) : Parser GlyphDefinition := do
  let name ← quoted
  keyword "ID"
  let id ← word "a glyph id" uint16?
  let codePoints ← glyphCodePoints
  let kind ← optional "TYPE" (word "a glyph type" glyphKind?)
  let components ← optional "COMPONENTS" (word "a component count" uint16?)
  keyword "END_GLYPH"
  return { name, id, codePoints, kind, components, location }

/-- Reads the definition of a group behind its keyword. -/
def group (location : Location) : Parser GroupDefinition := do
  let name ← quoted
  let members ← optional "ENUM" do
    let members ← coverage
    keyword "END_ENUM"
    return members
  keyword "END_GROUP"
  return { name, members := members.getD [], location }

/-- Reads the name of a lookup of a feature, if one comes next. -/
def featureLookup? : Parser (Option String) :=
  optional "LOOKUP" quoted

/-- Reads a feature of a language, if one comes next. -/
def feature? : Parser (Option FeatureDefinition) := do
  match ← take? (isKeyword "DEF_FEATURE") with
  | none => return none
  | some (_, location) =>
      let title ← optional "NAME" quoted
      keyword "TAG"
      let tag ← tag
      let lookups ← many featureLookup?
      keyword "END_FEATURE"
      return some { title, tag, lookups, location }

/-- Reads a language of a script, if one comes next. -/
def language? : Parser (Option LanguageDefinition) := do
  match ← take? (isKeyword "DEF_LANGSYS") with
  | none => return none
  | some (_, location) =>
      let title ← optional "NAME" quoted
      keyword "TAG"
      let tag ← tag
      let features ← many feature?
      keyword "END_LANGSYS"
      return some { title, tag, features, location }

/-- Reads the definition of a script behind its keyword. -/
def script (location : Location) : Parser ScriptDefinition := do
  let title ← optional "NAME" quoted
  keyword "TAG"
  let tag ← tag
  let languages ← many language?
  keyword "END_SCRIPT"
  return { title, tag, languages, location }

/-- Reads the definition of an anchor behind its keyword. -/
def anchor (location : Location) : Parser AnchorDefinition := do
  let anchorName ← quoted
  keyword "ON"
  let glyphId ← word "a glyph id" uint16?
  keyword "GLYPH"
  let glyph ← name
  keyword "COMPONENT"
  let component ← word "a component index" uint16?
  let locked ← keyword? "LOCKED"
  keyword "AT"
  let placement ← placement
  keyword "END_ANCHOR"
  return { name := anchorName, glyphId, glyph, component, locked, placement, location }

/-- Reads the values of a setting behind its name. -/
def setting (name : String) (location : Location) : Parser Setting := do
  if name.toList.all isSettingChar then
    let values ← many (numeral? "a setting value" int32?)
    return { name, values, location }
  else
    failAt location (.expected "a definition" (some (.word name)))

/-- Reads the statement that the given word opens. -/
def statement (opening : String) (location : Location) : Parser Statement :=
  match opening with
  | "DEF_GLYPH" => Statement.glyph <$> glyph location
  | "DEF_GROUP" => Statement.group <$> group location
  | "DEF_SCRIPT" => Statement.script <$> script location
  | "DEF_LOOKUP" => Statement.lookup <$> lookup location
  | "DEF_ANCHOR" => Statement.anchor <$> anchor location
  | name => Statement.setting <$> setting name location

/-- Succeeds at the end of the text alone. -/
def endOfText : Parser Unit := do
  match ← take? some with
  | none => return ()
  | some (lexeme, location) => failAt location (.afterEnd lexeme)

/-- The opening word of a statement; something else is a fault. -/
def opening? : Parser (Option (String × Location)) := do
  match ← take? some with
  | none => return none
  | some (.word opening, location) => return some (opening, location)
  | some (lexeme, location) => failAt location (.expected "a definition" (some lexeme))

/-- Reads the next statement, if the text does not end here. -/
def statement? : Parser (Option Statement) := do
  match ← opening? with
  | none => return none
  | some ("END", _) =>
      endOfText
      return none
  | some (opening, location) => return some (← statement opening location)

/-- Reads the statements of a whole source. -/
def statements : Parser (List Statement) :=
  many statement?

end Parser

/-- What is wrong with a source text, and where. -/
structure SyntaxError where
  problem : Problem
  location : Location
deriving Repr, DecidableEq

/-- The place and the problem, in words. -/
def SyntaxError.message (error : SyntaxError) : String :=
  s!"{error.location}: {error.problem.message}"

/-- Reads the statements that a list of tokens holds, where the text ends at `finish`. -/
def parseTokens (tokens : List Token) (finish : Location) :
    Except SyntaxError (List Statement) :=
  match Parser.statements (.ofList tokens) with
  | .ok (statements, _) => .ok statements
  | .error failure => .error ⟨failure.problem, failure.place.getD finish⟩

/-- Reads a source text. -/
def parse (text : String) : Except SyntaxError (List Statement) :=
  let (tokens, finish) := scan Location.start text.toList
  parseTokens tokens finish

end Source
end GlyphLayout
