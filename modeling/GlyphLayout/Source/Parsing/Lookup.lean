import GlyphLayout.Source.Parsing.Coverage
import GlyphLayout.Text.Numeral

/-!
# Reading lookups

The definition of a lookup has options in any order, contexts, and one payload.  The shape of
a substitution is decided from the lengths of all its mappings together.
-/

namespace GlyphLayout
namespace Source

open Text (uint16? int16?)

/-- What the options of a lookup say. -/
structure LookupOptions where
  processBase : Bool := true
  marks : MarkFilter := .all
  direction : Option Direction := none
  reversal : Bool := false
  comments : Option String := none
deriving Repr, DecidableEq

/-- The text with each backslash and `n` behind it replaced by a line feed. -/
def unescapeNewlines : List Char → List Char
  | '\\' :: 'n' :: cs => '\n' :: unescapeNewlines cs
  | c :: cs => c :: unescapeNewlines cs
  | [] => []

/-- The greatest of the lengths of some coverages. -/
def greatestLength (coverages : List Coverage) : Nat :=
  coverages.foldl (fun greatest coverage => max greatest coverage.length) 0

/-- The shape of a substitution, or none if both sides of it have several items. -/
def SubstitutionKind.ofMappings? (reversal : Bool) (mappings : List Mapping) :
    Option SubstitutionKind :=
  let input := greatestLength (mappings.map Mapping.input)
  let output := greatestLength (mappings.map Mapping.output)
  if 1 < input ∧ 1 < output then none
  else if reversal then some .reverse
  else if 1 < input then some .ligature
  else if 1 < output then some .multiple
  else some .single

namespace Parser

/-- The words that start an option of a lookup. -/
inductive OptionWord where
  | processBase
  | skipBase
  | processMarks
  | skipMarks
  | direction
  | reversal
  | comments
deriving Repr, DecidableEq

/-- The option that a word starts. -/
def optionWord? : Lexeme → Option OptionWord
  | .word "PROCESS_BASE" => some .processBase
  | .word "SKIP_BASE" => some .skipBase
  | .word "PROCESS_MARKS" => some .processMarks
  | .word "SKIP_MARKS" => some .skipMarks
  | .word "DIRECTION" => some .direction
  | .word "REVERSAL" => some .reversal
  | .word "COMMENTS" => some .comments
  | _ => none

/-- The marks that are processed, or none if a group must follow that makes a filtering set. -/
def markWord? : Lexeme → Option (Option MarkFilter)
  | .quoted group => some (some (.attachment group))
  | .word "ALL" => some (some .all)
  | .word "NONE" => some (some .none)
  | .word "MARK_GLYPH_SET" => some none
  | _ => none

/-- Reads which marks are processed; all of them if nothing is said. -/
def markFilter : Parser MarkFilter := do
  match ← take? markWord? with
  | some (some filter, _) => return filter
  | some (none, _) => return .filterSet (← quoted)
  | none => return .all

/-- The direction that a word names. -/
def direction? : String → Option Direction
  | "LTR" => some .leftToRight
  | "RTL" => some .rightToLeft
  | _ => none

/-- Reads the next option. -/
def optionStep (options : LookupOptions) : Parser (Option LookupOptions) := do
  match ← take? optionWord? with
  | none => return none
  | some (.processBase, _) => return some { options with processBase := true }
  | some (.skipBase, _) => return some { options with processBase := false }
  | some (.processMarks, _) => return some { options with marks := ← markFilter }
  | some (.skipMarks, _) => return some { options with marks := .none }
  | some (.direction, _) =>
      return some { options with direction := some (← word "LTR or RTL" direction?) }
  | some (.reversal, _) => return some { options with reversal := true }
  | some (.comments, _) =>
      let comments := String.ofList (unescapeNewlines (← quoted).toList)
      return some { options with comments := some comments }

/-- Reads the next coverage behind a word that says on which of two sides it is gathered: the first
one if `true`.  Both sides are reversed. -/
def gatherStep (word : Lexeme → Option Bool) (sides : List Coverage × List Coverage) :
    Parser (Option (List Coverage × List Coverage)) := do
  match ← take? word with
  | none => return none
  | some (true, _) => return some ((← coverage) :: sides.1, sides.2)
  | some (false, _) => return some (sides.1, (← coverage) :: sides.2)

/-- The side on which a coverage of a context stands: the left one if `true`. -/
def sideWord? : Lexeme → Option Bool
  | .word "LEFT" => some true
  | .word "RIGHT" => some false
  | _ => none

/-- Reads the next coverage of a context, to the left or to the right. -/
def sideStep : List Coverage × List Coverage →
    Parser (Option (List Coverage × List Coverage)) :=
  gatherStep sideWord?

/-- The kind of context that a word opens. -/
def contextWord? : Lexeme → Option ContextKind
  | .word "IN_CONTEXT" => some .within
  | .word "EXCEPT_CONTEXT" => some .except
  | _ => none

/-- Reads the next context.  A context without coverages says nothing and is left out. -/
def contextStep (contexts : List ContextDefinition) :
    Parser (Option (List ContextDefinition)) := do
  match ← take? contextWord? with
  | none => return none
  | some (kind, _) =>
      let (left, right) ← iterate sideStep ([], [])
      keyword "END_CONTEXT"
      if left.isEmpty && right.isEmpty then return some contexts
      else return some (⟨kind, left.reverse, right.reverse⟩ :: contexts)

/-- Reads a mapping of a substitution, if one comes next. -/
def mapping? : Parser (Option Mapping) := do
  match ← take? (isKeyword "SUB") with
  | none => return none
  | some (_, location) =>
      let input ← coverage
      keyword "WITH"
      let output ← coverage
      keyword "END_SUB"
      return some ⟨input, output, location⟩

/-- Reads a substitution behind its keyword, which stands at `location`. -/
def substitution (reversal : Bool) (location : Location) : Parser Substitution := do
  let mappings ← many mapping?
  keyword "END_SUBSTITUTION"
  match SubstitutionKind.ofMappings? reversal mappings with
  | some kind => return ⟨kind, mappings, location⟩
  | none => failAt location .manyToMany

/-- Reads a device adjustment, if one comes next. -/
def device? : Parser (Option DeviceAdjustment) := do
  if ← keyword? "ADJUST_BY" then
    let delta ← word "a device delta" int16?
    keyword "AT"
    return some ⟨← word "a ppem size" uint16?, delta⟩
  else
    return none

/-- Reads a value with its device adjustments, if its keyword comes next. -/
def value? (mark what : String) : Parser (Option Int16 × List DeviceAdjustment) := do
  if ← keyword? mark then
    let value ← word what int16?
    return (some value, ← many device?)
  else
    return (none, [])

/-- Reads a placement. -/
def placement : Parser Placement := do
  keyword "POS"
  let (advance, advanceDevices) ← value? "ADV" "an advance"
  let (dx, xDevices) ← value? "DX" "an x offset"
  let (dy, yDevices) ← value? "DY" "a y offset"
  keyword "END_POS"
  return { advance, dx, dy, advanceDevices, xDevices, yDevices }

/-- Reads a coverage behind a keyword, if the keyword comes next. -/
def coverageAfter? (mark : String) : Parser (Option Coverage) := do
  if ← keyword? mark then return some (← coverage) else return none

/-- The text of a word that is a numeral. -/
def numeralWord? : Lexeme → Option String
  | .word text => if Text.isNumeral text then some text else none
  | _ => none

/-- Reads a numeral of a narrower kind, if a numeral comes next. -/
def numeral? {α : Type} (what : String) (read : String → Option α) : Parser (Option α) := do
  match ← take? numeralWord? with
  | none => return none
  | some (text, location) =>
      match read text with
      | some value => return some value
      | none => failAt location (.expected what (some (.word text)))

/-- Reads the placement of a pair, if one comes next. -/
def pair? : Parser (Option PairAdjustment) := do
  match ← numeral? "a FIRST index" uint16? with
  | none => return none
  | some first =>
      let second ← word "a SECOND index" uint16?
      keyword "BY"
      let firstPlacement ← placement
      return some ⟨first, second, firstPlacement, ← placement⟩

/-- Reads the placement of a single glyph, unless the end of the list comes next. -/
def single? : Parser (Option (Coverage × Placement)) := do
  if ← keyword? "END_ADJUST" then
    return none
  else
    let covered ← coverage
    keyword "BY"
    return some (covered, ← placement)

/-- Reads the marks of a class, unless the end of the list comes next. -/
def attached? : Parser (Option (Coverage × String)) := do
  if ← keyword? "END_ATTACH" then
    return none
  else
    let covered ← coverage
    keyword "AT"
    keyword "ANCHOR"
    return some (covered, ← quoted)

/-- The end of a glyph that takes part in a join: its exit if `true`. -/
def joinWord? : Lexeme → Option Bool
  | .word "EXIT" => some true
  | .word "ENTER" => some false
  | _ => none

/-- Reads the next coverage of a cursive attachment, of exits or of entries. -/
def joinStep : List Coverage × List Coverage →
    Parser (Option (List Coverage × List Coverage)) :=
  gatherStep joinWord?

/-- The kinds of positioning. -/
inductive PositioningWord where
  | attach
  | cursive
  | pairs
  | singles
deriving Repr, DecidableEq

/-- The kind of positioning that a word names. -/
def positioningWord? : String → Option PositioningWord
  | "ATTACH" => some .attach
  | "ATTACH_CURSIVE" => some .cursive
  | "ADJUST_PAIR" => some .pairs
  | "ADJUST_SINGLE" => some .singles
  | _ => none

/-- Reads a positioning of the given kind behind its keyword. -/
def positioningOf : PositioningWord → Parser Positioning
  | .attach => do
      let bases ← coverage
      keyword "TO"
      return .attach bases (← many attached?)
  | .cursive => do
      let (exits, entries) ← iterate joinStep ([], [])
      keyword "END_ATTACH"
      return .cursive exits.reverse entries.reverse
  | .pairs => do
      let first ← many (coverageAfter? "FIRST")
      let second ← many (coverageAfter? "SECOND")
      let adjustments ← many pair?
      keyword "END_ADJUST"
      return .pairs first second adjustments
  | .singles => return .singles (← many single?)

/-- Reads a positioning behind its keyword. -/
def positioning : Parser Positioning := do
  let kind ← word "a positioning type" positioningWord?
  let positioning ← positioningOf kind
  keyword "END_POSITION"
  return positioning

/-- Whether a word opens a substitution. -/
def payloadWord? : Lexeme → Option Bool
  | .word "AS_SUBSTITUTION" => some true
  | .word "AS_POSITION" => some false
  | _ => none

/-- Reads what a lookup does. -/
def payload (reversal : Bool) : Parser Payload := do
  match ← take payloadWord? (.expected "AS_SUBSTITUTION or AS_POSITION") with
  | (true, location) => return .substitution (← substitution reversal location)
  | (false, _) => return .positioning (← positioning)

/-- Reads the definition of a lookup behind its keyword. -/
def lookup (location : Location) : Parser LookupDefinition := do
  let name ← quoted
  let options ← iterate optionStep {}
  let contexts ← iterate contextStep []
  let payload ← payload options.reversal
  return {
    name
    processBase := options.processBase
    marks := options.marks
    direction := options.direction
    reversal := options.reversal
    comments := options.comments
    contexts := contexts.reverse
    payload
    location }

end Parser
end Source
end GlyphLayout
