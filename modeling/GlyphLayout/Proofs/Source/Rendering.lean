import GlyphLayout.Source.Statement
import GlyphLayout.Source.Token
import GlyphLayout.Text.Joined

/-!
# Writing a source

The canonical form of a source text: one definition on each line, a space between
neighbouring lexemes, every name quoted, and the word `END` behind the last definition.
-/

namespace GlyphLayout
namespace Source

/-- An integer in decimal. -/
def Lexeme.numeral (value : Int) : Lexeme :=
  .word (Text.decimal value)

/-! ## Coverages -/

mutual

/-- The lexemes of a coverage item. -/
def CoverageItem.lexemes : CoverageItem → List Lexeme
  | .glyph name => [.word "GLYPH", .quoted name]
  | .group name => [.word "GROUP", .quoted name]
  | .enumeration items => .word "ENUM" :: (coverageLexemes items ++ [.word "END_ENUM"])
  | .range first last => [.word "RANGE", .quoted first, .word "TO", .quoted last]

/-- The lexemes of a coverage, item after item. -/
def coverageLexemes : List CoverageItem → List Lexeme
  | [] => []
  | item :: items => item.lexemes ++ coverageLexemes items

end

/-- Coverages in a row, each behind the same keyword. -/
def coveragesAfter (mark : String) (coverages : List Coverage) : List Lexeme :=
  coverages.flatMap fun coverage => .word mark :: coverageLexemes coverage

/-! ## Placements -/

def deviceLexemes (device : DeviceAdjustment) : List Lexeme :=
  [.word "ADJUST_BY", .numeral device.delta.toInt, .word "AT", .numeral device.ppem.toNat]

/-- A value behind its keyword, with its device adjustments. -/
def valueLexemes
    (mark : String)
    (devices : List DeviceAdjustment) :
    Option Int16 → List Lexeme
  | none => []
  | some value => .word mark :: .numeral value.toInt :: devices.flatMap deviceLexemes

def Placement.lexemes (placement : Placement) : List Lexeme :=
  .word "POS" ::
    (valueLexemes "ADV" placement.advanceDevices placement.advance ++
      (valueLexemes "DX" placement.xDevices placement.dx ++
        (valueLexemes "DY" placement.yDevices placement.dy ++ [.word "END_POS"])))

/-! ## Lookups -/

def MarkFilter.lexemes : MarkFilter → List Lexeme
  | all => [.word "PROCESS_MARKS", .word "ALL"]
  | none => [.word "SKIP_MARKS"]
  | attachment group => [.word "PROCESS_MARKS", .quoted group]
  | filterSet group => [.word "PROCESS_MARKS", .word "MARK_GLYPH_SET", .quoted group]

/-- The base glyphs are always seen or skipped in so many words. -/
def baseLexemes (processBase : Bool) : List Lexeme :=
  [.word (if processBase then "PROCESS_BASE" else "SKIP_BASE")]

def directionLexemes : Option Direction → List Lexeme
  | none => []
  | some .leftToRight => [.word "DIRECTION", .word "LTR"]
  | some .rightToLeft => [.word "DIRECTION", .word "RTL"]

def reversalLexemes (reversal : Bool) : List Lexeme :=
  if reversal then [.word "REVERSAL"] else []

/-- The text with a backslash and `n` in the place of each line feed. -/
def escapeNewlines : List Char → List Char
  | [] => []
  | c :: cs => if c = '\n' then '\\' :: 'n' :: escapeNewlines cs else c :: escapeNewlines cs

def commentLexemes : Option String → List Lexeme
  | none => []
  | some comments => [.word "COMMENTS", .quoted (String.ofList (escapeNewlines comments.toList))]

def ContextKind.keyword : ContextKind → String
  | within => "IN_CONTEXT"
  | except => "EXCEPT_CONTEXT"

def ContextDefinition.lexemes (context : ContextDefinition) : List Lexeme :=
  .word context.kind.keyword ::
    (coveragesAfter "LEFT" context.left ++
      (coveragesAfter "RIGHT" context.right ++ [.word "END_CONTEXT"]))

def Mapping.lexemes (mapping : Mapping) : List Lexeme :=
  .word "SUB" ::
    (coverageLexemes mapping.input ++
      (.word "WITH" :: (coverageLexemes mapping.output ++ [.word "END_SUB"])))

def Substitution.lexemes (substitution : Substitution) : List Lexeme :=
  .word "AS_SUBSTITUTION" ::
    (substitution.mappings.flatMap Mapping.lexemes ++ [.word "END_SUBSTITUTION"])

def PairAdjustment.lexemes (pair : PairAdjustment) : List Lexeme :=
  .numeral pair.first.toNat :: .numeral pair.second.toNat :: .word "BY" ::
    (pair.firstPlacement.lexemes ++ pair.secondPlacement.lexemes)

/-- A coverage and the placement of its glyphs. -/
def singleLexemes (single : Coverage × Placement) : List Lexeme :=
  coverageLexemes single.1 ++ (.word "BY" :: single.2.lexemes)

/-- A coverage and the anchor at which its marks are attached. -/
def attachedLexemes (attached : Coverage × String) : List Lexeme :=
  coverageLexemes attached.1 ++ [.word "AT", .word "ANCHOR", .quoted attached.2]

def Positioning.lexemes : Positioning → List Lexeme
  | pairs first second adjustments =>
      .word "ADJUST_PAIR" ::
        (coveragesAfter "FIRST" first ++
          (coveragesAfter "SECOND" second ++
            (adjustments.flatMap PairAdjustment.lexemes ++ [.word "END_ADJUST"])))
  | singles adjustments =>
      .word "ADJUST_SINGLE" :: (adjustments.flatMap singleLexemes ++ [.word "END_ADJUST"])
  | attach bases marks =>
      .word "ATTACH" ::
        (coverageLexemes bases ++
          (.word "TO" :: (marks.flatMap attachedLexemes ++ [.word "END_ATTACH"])))
  | cursive exits entries =>
      .word "ATTACH_CURSIVE" ::
        (coveragesAfter "EXIT" exits ++
          (coveragesAfter "ENTER" entries ++ [.word "END_ATTACH"]))

def Payload.lexemes : Payload → List Lexeme
  | substitution value => value.lexemes
  | positioning value => .word "AS_POSITION" :: (value.lexemes ++ [.word "END_POSITION"])

def LookupDefinition.lexemes (lookup : LookupDefinition) : List Lexeme :=
  .word "DEF_LOOKUP" :: .quoted lookup.name ::
    (baseLexemes lookup.processBase ++
      (lookup.marks.lexemes ++
        (directionLexemes lookup.direction ++
          (reversalLexemes lookup.reversal ++
            (commentLexemes lookup.comments ++
              (lookup.contexts.flatMap ContextDefinition.lexemes ++ lookup.payload.lexemes))))))

/-! ## Other definitions -/

/-- A code point in hexadecimal, behind its mark. -/
def codePointText (value : UInt32) : List Char :=
  'U' :: '+' :: (upperHex value.toNat).toList

/-- The code points with commas between them. -/
def codePointsText (values : List UInt32) : String :=
  String.ofList ([','].intercalate (values.map codePointText))

/-- A single code point is written in decimal, several are written as a list. -/
def codePointLexemes : List UInt32 → List Lexeme
  | [] => []
  | [value] => [.word "UNICODE", .numeral value.toNat]
  | values => [.word "UNICODEVALUES", .quoted (codePointsText values)]

def GlyphKind.keyword : GlyphKind → String
  | base => "BASE"
  | ligature => "LIGATURE"
  | mark => "MARK"
  | component => "COMPONENT"

/-- A part of a definition behind its keyword, if there is one. -/
def optionalLexemes {α : Type} (mark : String) (write : α → Lexeme) : Option α → List Lexeme
  | none => []
  | some value => [.word mark, write value]

def GlyphDefinition.lexemes (glyph : GlyphDefinition) : List Lexeme :=
  .word "DEF_GLYPH" :: .quoted glyph.name :: .word "ID" :: .numeral glyph.id.toNat ::
    (codePointLexemes glyph.codePoints ++
      (optionalLexemes "TYPE" (fun kind => .word kind.keyword) glyph.kind ++
        (optionalLexemes "COMPONENTS" (fun count => .numeral count.toNat) glyph.components ++
          [.word "END_GLYPH"])))

def GroupDefinition.lexemes (group : GroupDefinition) : List Lexeme :=
  .word "DEF_GROUP" :: .quoted group.name :: .word "ENUM" ::
    (coverageLexemes group.members ++ [.word "END_ENUM", .word "END_GROUP"])

/-- The title and the tag of a script, a language or a feature. -/
def headingLexemes (title : Option String) (tag : Tag) : List Lexeme :=
  optionalLexemes "NAME" .quoted title ++ [.word "TAG", .quoted tag.padded]

/-- A lookup that a feature uses. -/
def lookupUseLexemes (name : String) : List Lexeme :=
  [.word "LOOKUP", .quoted name]

def FeatureDefinition.lexemes (feature : FeatureDefinition) : List Lexeme :=
  .word "DEF_FEATURE" ::
    (headingLexemes feature.title feature.tag ++
      (feature.lookups.flatMap lookupUseLexemes ++ [.word "END_FEATURE"]))

def LanguageDefinition.lexemes (language : LanguageDefinition) : List Lexeme :=
  .word "DEF_LANGSYS" ::
    (headingLexemes language.title language.tag ++
      (language.features.flatMap FeatureDefinition.lexemes ++ [.word "END_LANGSYS"]))

def ScriptDefinition.lexemes (script : ScriptDefinition) : List Lexeme :=
  .word "DEF_SCRIPT" ::
    (headingLexemes script.title script.tag ++
      (script.languages.flatMap LanguageDefinition.lexemes ++ [.word "END_SCRIPT"]))

def lockedLexemes (locked : Bool) : List Lexeme :=
  if locked then [.word "LOCKED"] else []

def AnchorDefinition.lexemes (anchor : AnchorDefinition) : List Lexeme :=
  .word "DEF_ANCHOR" :: .quoted anchor.name :: .word "ON" :: .numeral anchor.glyphId.toNat ::
    .word "GLYPH" :: .quoted anchor.glyph :: .word "COMPONENT" ::
    .numeral anchor.component.toNat ::
    (lockedLexemes anchor.locked ++
      (.word "AT" :: (anchor.placement.lexemes ++ [.word "END_ANCHOR"])))

def Setting.lexemes (setting : Setting) : List Lexeme :=
  .word setting.name :: setting.values.map fun value => .numeral value.toInt

def Statement.lexemes : Statement → List Lexeme
  | glyph definition => definition.lexemes
  | group definition => definition.lexemes
  | script definition => definition.lexemes
  | lookup definition => definition.lexemes
  | anchor definition => definition.lexemes
  | setting definition => definition.lexemes

/-! ## A whole source -/

/-- The lexemes of a source, up to the word that closes it. -/
def sourceLexemes (statements : List Statement) : List Lexeme :=
  statements.flatMap Statement.lexemes ++ [.word "END"]

/-- Some lexemes as a line of text. -/
def line (lexemes : List Lexeme) : List Char :=
  [' '].intercalate (lexemes.map Lexeme.source) ++ ['\n']

/-- The canonical text of a source. -/
def render (statements : List Statement) : String :=
  String.ofList
    (statements.flatMap (fun statement => line statement.lexemes) ++ line [.word "END"])

example : render [.setting ⟨"GRID_PPEM", [20, -3], ⟨7, 1⟩⟩] = "GRID_PPEM 20 -3\nEND\n" := by
  decide +kernel

end Source
end GlyphLayout
