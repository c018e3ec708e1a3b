import GlyphLayout.Feature.Glyphs
import GlyphLayout.Feature.Value
import GlyphLayout.Text.Lines

/-!
# Rules

The statements of a lookup block.  A rule may take several lines, of which all but the first
carry the indentation of the block.
-/

namespace GlyphLayout
namespace Feature

open Text (joined)

/-- The indentation of a block. -/
def indent : String := "    "

/-- Which glyphs a lookup leaves out, and the direction in which it joins cursive glyphs. -/
structure Flags where
  rightToLeft : Bool := false
  ignoreBases : Bool := false
  ignoreLigatures : Bool := false
  ignoreMarks : Bool := false
  /-- The class of the only marks that are seen. -/
  markAttachment : Option String := none
  /-- The class of the only marks that are seen, as a filtering set. -/
  markFiltering : Option String := none
deriving Repr, DecidableEq

namespace Flags

/-- The flags change nothing. -/
def isDefault (flags : Flags) : Bool :=
  flags == {}

/-- The parts of a statement that sets the flags. -/
def words (flags : Flags) : List String :=
  (if flags.rightToLeft then ["RightToLeft"] else [])
    ++ (if flags.ignoreBases then ["IgnoreBaseGlyphs"] else [])
    ++ (if flags.ignoreLigatures then ["IgnoreLigatures"] else [])
    ++ (if flags.ignoreMarks then ["IgnoreMarks"] else [])
    ++ (flags.markAttachment.toList.map ("MarkAttachmentType @" ++ ·))
    ++ (flags.markFiltering.toList.map ("UseMarkFilteringSet @" ++ ·))

/-- The statement that sets the flags. -/
def text (flags : Flags) : String :=
  match flags.words with
  | [] => "lookupflag 0;"
  | words => "lookupflag " ++ joined " " words ++ ";"

end Flags

/-- What stands around the input of a rule. -/
structure Context where
  /-- What stands in front of the input. -/
  backtrack : List Glyphs := []
  /-- What stands behind the input. -/
  lookahead : List Glyphs := []
  /-- The input is marked even if nothing stands around it. -/
  forced : Bool := false
deriving Repr, DecidableEq

namespace Context

/-- A rule in this context is a contextual one. -/
def isContextual (context : Context) : Bool :=
  context.forced || !context.backtrack.isEmpty || !context.lookahead.isEmpty

/-- Some input, already written, between what stands around it. -/
def surround (context : Context) (input : List String) : String :=
  joined " " (Glyphs.texts context.backtrack ++ input ++ Glyphs.texts context.lookahead)

/-- Some input between what stands around it, marked if `marked`. -/
def sequence (context : Context) (input : List Glyphs) (marked : Bool) : String :=
  context.surround (input.map fun item => if marked then item.text ++ "'" else item.text)

end Context

/-- A point at which the marks of a class are attached. -/
structure Attachment where
  anchor : Option Anchor
  markClass : String
deriving Repr, DecidableEq

/-- An attachment as a feature file has it. -/
def Attachment.text (attachment : Attachment) : String :=
  anchorText attachment.anchor ++ " mark @" ++ attachment.markClass

/-- A statement of a lookup block. -/
inductive Rule where
  | comment (text : String)
  | flags (flags : Flags)
  | subtable
  | singleSub (context : Context) (target replacement : Glyphs)
  | multipleSub (context : Context) (target : Glyphs) (replacement : List Glyphs)
  | ligatureSub (context : Context) (components : List Glyphs) (replacement : Glyphs)
  | reverseSub (context : Context) (target replacement : Glyphs)
  | ignoreSub (context : Context) (input : List Glyphs)
  | pair (enumerated : Bool) (first : Glyphs) (firstValue : Value) (second : Glyphs)
      (secondValue : Value)
  | single (target : Glyphs) (value : Value)
  | markToBase (base : Glyphs) (marks : List Attachment)
  | markToLigature (base : Glyphs) (components : List (List Attachment))
  | markToMark (base : Glyphs) (marks : List Attachment)
  | cursive (glyph : Glyphs) (entry exit : Option Anchor)
  /-- Contextual positioning, where each input item may name a lookup to apply there. -/
  | chainPos (context : Context) (input : List (Glyphs × Option String))
  | ignorePos (context : Context) (input : List Glyphs)
deriving Repr, DecidableEq

namespace Rule

/-- The rule positions a pair outside any context. -/
def isPair : Rule → Bool
  | pair .. => true
  | _ => false

/-- A substitution of some input in a context. -/
def substitutionText (verb : String) (context : Context) (input : List Glyphs)
    (replacement : String) : String :=
  verb ++ " " ++ context.sequence input context.isContextual ++ " by " ++ replacement ++ ";"

/-- The attachments of one part of a ligature. -/
def componentText (marks : List Attachment) : String :=
  match marks.filter (·.anchor.isSome) with
  | [] => anchorText none
  | present => joined " " (present.map Attachment.text)

/-- A rule as a feature file has it. -/
def text : Rule → String
  | comment text => joined ("\n" ++ indent) ((Text.lines text).map ("# " ++ ·))
  | flags value => value.text
  | subtable => "subtable;"
  | singleSub context target replacement =>
      substitutionText "sub" context [target] replacement.text
  | multipleSub context target replacement =>
      substitutionText "sub" context [target] (joined " " (Glyphs.texts replacement))
  | ligatureSub context components replacement =>
      substitutionText "sub" context components replacement.text
  | reverseSub context target replacement =>
      substitutionText "rsub" context [target] replacement.text
  | ignoreSub context input => "ignore sub " ++ context.sequence input true ++ ";"
  | pair enumerated first firstValue second secondValue =>
      let start := if enumerated then "enum pos " else "pos "
      if secondValue.isEmpty then
        start ++ first.text ++ " " ++ second.text ++ " " ++ firstValue.text ++ ";"
      else
        start ++ first.text ++ " " ++ firstValue.fullText ++ " " ++ second.text ++ " "
          ++ secondValue.fullText ++ ";"
  | single target value => "pos " ++ target.text ++ " " ++ value.text ++ ";"
  | markToBase base marks =>
      "pos base " ++ base.text ++ " " ++ joined " " (marks.map Attachment.text) ++ ";"
  | markToLigature base components =>
      "pos ligature " ++ base.text ++ " "
        ++ joined ("\n" ++ indent ++ indent ++ "ligComponent ") (components.map componentText)
        ++ ";"
  | markToMark base marks =>
      "pos mark " ++ base.text ++ " " ++ joined " " (marks.map Attachment.text) ++ ";"
  | cursive glyph entry exit =>
      "pos cursive " ++ glyph.text ++ " " ++ anchorText entry ++ " " ++ anchorText exit ++ ";"
  | chainPos context input =>
      let items := input.map fun (item, lookup) =>
        item.text ++ "'" ++ joined "" (lookup.toList.map (" lookup " ++ ·))
      "pos " ++ context.surround items ++ ";"
  | ignorePos context input => "ignore pos " ++ context.sequence input true ++ ";"

end Rule
end Feature
end GlyphLayout
