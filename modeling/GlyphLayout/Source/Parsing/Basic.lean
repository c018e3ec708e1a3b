import GlyphLayout.Source.Token
import GlyphLayout.Tag

/-!
# Parsers

A parser reads tokens from the front of those that are left, or fails with a problem and the
place where it arose.  A failure behind the last token has no place of its own; the
place of the end of the text is filled in when the whole text is known.
-/

namespace GlyphLayout
namespace Source

/-- What is wrong with a source text. -/
inductive Problem where
  /-- A keyword is missing. -/
  | expectedKeyword (keyword : String) (found : Option Lexeme)
  /-- A quoted string is missing. -/
  | expectedQuoted (found : Option Lexeme)
  /-- A quotation mark has no partner. -/
  | unclosedQuote
  /-- Something of the described form is missing. -/
  | expected (what : String) (found : Option Lexeme)
  /-- A tag cannot be read. -/
  | invalidTag (text : String) (cause : TagError)
  /-- An entry of a list of code points cannot be read. -/
  | invalidCodePoint (entry : String)
  /-- A substitution has several glyphs on both sides. -/
  | manyToMany
  /-- Something follows the end of the project. -/
  | afterEnd (found : Lexeme)
deriving Repr, DecidableEq

/-- The problem, in words. -/
def Problem.message : Problem → String
  | expectedKeyword keyword found => s!"expected '{keyword}', found " ++ Lexeme.describe found
  | expectedQuoted found => "expected a quoted string, found " ++ Lexeme.describe found
  | unclosedQuote => "unterminated string"
  | expected what found => s!"expected {what}, found " ++ Lexeme.describe found
  | invalidTag text cause => s!"invalid tag '{text}': " ++ cause.message
  | invalidCodePoint entry => s!"invalid unicode value '{entry}'"
  | manyToMany => "many-to-many substitutions are not valid"
  | afterEnd found => "unexpected " ++ Lexeme.describe (some found) ++ " after END"

/-- A problem, and the token at which it arose, if it did not arise at the end of the text. -/
structure Failure where
  problem : Problem
  place : Option Location
deriving Repr, DecidableEq

/-- The tokens that are left to read, with their number, which shows progress. -/
structure Remaining where
  tokens : List Token
  size : Nat
  counted : tokens.length = size

namespace Remaining

/-- All of some tokens. -/
def ofList (tokens : List Token) : Remaining :=
  ⟨tokens, tokens.length, rfl⟩

/-- The next token and those behind it. -/
def next? : Remaining → Option (Token × Remaining)
  | ⟨[], _, _⟩ => none
  | ⟨token :: rest, size, counted⟩ =>
      some (token, ⟨rest, size - 1, Nat.eq_sub_of_add_eq counted⟩)

@[simp] theorem next?_nil : (ofList []).next? = none := rfl

@[simp] theorem next?_cons (token : Token) (rest : List Token) :
    (ofList (token :: rest)).next? = some (token, ofList rest) := rfl

theorem ofList_tokens (remaining : Remaining) : ofList remaining.tokens = remaining := by
  obtain ⟨tokens, size, rfl⟩ := remaining
  rfl

end Remaining

/-- A parser of tokens. -/
abbrev Parser := StateT Remaining (Except Failure)

namespace Parser

/-- Fails at the given place. -/
def failAt {α : Type} (location : Location) (problem : Problem) : Parser α :=
  throw ⟨problem, some location⟩

/-- Reads the next token if `read` has a value for its lexeme, and fails at it otherwise. -/
def take {α : Type} (read : Lexeme → Option α) (problem : Option Lexeme → Problem) :
    Parser (α × Location) := fun remaining =>
  match remaining.next? with
  | none => .error ⟨problem none, none⟩
  | some (token, rest) =>
      match read token.lexeme with
      | some value => .ok ((value, token.location), rest)
      | none => .error ⟨problem (some token.lexeme), some token.location⟩

/-- Reads the next token if `read` has a value for its lexeme, and nothing otherwise. -/
def take? {α : Type} (read : Lexeme → Option α) : Parser (Option (α × Location)) :=
  fun remaining =>
    match remaining.next? with
    | none => .ok (none, remaining)
    | some (token, rest) =>
        match read token.lexeme with
        | some value => .ok (some (value, token.location), rest)
        | none => .ok (none, remaining)

/--
Repeats `step`, which takes a state to the next one, until it has none.  A step that reads
no token is the last one.
-/
def iterate {σ : Type} (step : σ → Parser (Option σ)) (state : σ) (remaining : Remaining) :
    Except Failure (σ × Remaining) :=
  match step state remaining with
  | .error failure => .error failure
  | .ok (none, rest) => .ok (state, rest)
  | .ok (some next, rest) =>
      if rest.size < remaining.size then iterate step next rest else .ok (next, rest)
termination_by remaining.size

/-- Repeats `item` and collects what it reads, until it reads nothing more. -/
def many {α : Type} (item : Parser (Option α)) : Parser (List α) := do
  let found ← iterate (fun found => do return (← item).map (· :: found)) []
  return found.reverse

/-- The lexeme is the word `keyword`. -/
def isKeyword (keyword : String) (lexeme : Lexeme) : Option Unit :=
  if lexeme = .word keyword then some () else none

/-- Reads a keyword. -/
def keyword (keyword : String) : Parser Unit := do
  let _ ← take (isKeyword keyword) (.expectedKeyword keyword)

/-- Reads a keyword if it comes next, and tells whether it did. -/
def keyword? (keyword : String) : Parser Bool := do
  return (← take? (isKeyword keyword)).isSome

/-- The problem with what stands in the place of a quoted string. -/
def notQuoted : Option Lexeme → Problem
  | some (.unclosed _) => .unclosedQuote
  | found => .expectedQuoted found

/-- Reads a quoted string, and gives its place. -/
def quotedWithPlace : Parser (String × Location) :=
  take (fun | .quoted text => some text | _ => none) notQuoted

/-- Reads a quoted string. -/
def quoted : Parser String := do
  return (← quotedWithPlace).1

/-- Reads a name, which may be quoted. -/
def name : Parser String := do
  let (text, _) ← take (fun | .word text => some text | .quoted text => some text | _ => none)
    notQuoted
  return text

/-- The value of a word. -/
def ofWord {α : Type} (read : String → Option α) : Lexeme → Option α
  | .word text => read text
  | _ => none

/-- Reads a word that has a value. -/
def word {α : Type} (what : String) (read : String → Option α) : Parser α := do
  return (← take (ofWord read) (.expected what)).1

/-- Reads a tag. -/
def tag : Parser Tag := do
  let (text, location) ← quotedWithPlace
  match Tag.ofString text with
  | .ok tag => return tag
  | .error cause => failAt location (.invalidTag text cause)

end Parser
end Source
end GlyphLayout
