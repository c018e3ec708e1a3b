import GlyphLayout.Source.Location
import GlyphLayout.Text.Blank

/-!
# Tokens

A source text is a sequence of words and quoted strings.  A word runs up to the next
separator or quotation mark; a string runs from one quotation mark to the next, over any
number of lines, and knows no escapes.  Every text can be read: a string that is never closed
becomes a lexeme of its own kind.
-/

namespace GlyphLayout
namespace Source

open Text (isSeparator)

/-- A piece of a source text that stands for itself. -/
inductive Lexeme where
  /-- Characters that are neither separators nor quotation marks. -/
  | word (text : String)
  /-- The text between two quotation marks. -/
  | quoted (text : String)
  /-- The text behind a quotation mark that has no partner. -/
  | unclosed (text : String)
deriving Repr, DecidableEq

/-- A lexeme and the place of its first character. -/
structure Token where
  /-- What the token is. -/
  lexeme : Lexeme
  /-- Where the token starts. -/
  location : Location
deriving Repr, DecidableEq

/-- The character may stand in a word. -/
def isWordChar (c : Char) : Bool :=
  !isSeparator c && c != '"'

namespace Lexeme

/-- The characters of a lexeme as they stand in the source text. -/
def source : Lexeme → List Char
  | word text => text.toList
  | quoted text => '"' :: (text.toList ++ ['"'])
  | unclosed text => '"' :: text.toList

/-- What a message calls the lexeme that stands where something else was expected. -/
def describe : Option Lexeme → String
  | none => "end of file"
  | some (word text) => s!"'{text}'"
  | some (quoted text) => "string \"" ++ text ++ "\""
  | some (unclosed text) => "string \"" ++ text ++ "\""

/-- Reads the lexeme that starts with `c`, and gives the text behind it. -/
def read (c : Char) (cs : List Char) : Lexeme × List Char :=
  if c = '"' then
    match cs.dropWhile (· != '"') with
    | [] => (unclosed (String.ofList cs), [])
    | _ :: rest => (quoted (String.ofList (cs.takeWhile (· != '"'))), rest)
  else
    (word (String.ofList (c :: cs.takeWhile isWordChar)), cs.dropWhile isWordChar)

/-- Nothing is lost: the characters of the lexeme come in front of those that are left. -/
theorem source_append_read (c : Char) (cs : List Char) :
    (read c cs).1.source ++ (read c cs).2 = c :: cs := by
  unfold read
  split
  · rename_i quote
    have parts := List.takeWhile_append_dropWhile (p := (· != '"')) (l := cs)
    split
    · simp [source, quote]
    · rename_i stop rest same
      have closes : stop = '"' := by
        have fails := List.head?_dropWhile_not (· != '"') cs
        simpa [same] using fails
      subst closes quote
      rw [same] at parts
      simp only [source, String.toList_ofList, List.cons_append, List.append_assoc,
        List.nil_append, parts]
  · simp [source, List.takeWhile_append_dropWhile]

theorem length_read_le (c : Char) (cs : List Char) :
    (read c cs).2.length ≤ cs.length := by
  unfold read
  split
  · split
    · simp
    · rename_i rest same
      have shorter := (List.dropWhile_suffix (l := cs) (· != '"')).length_le
      rw [same] at shorter
      simp only [List.length_cons] at shorter
      dsimp only
      omega
  · exact (List.dropWhile_suffix (l := cs) isWordChar).length_le

end Lexeme

/-- The tokens of a text that starts at the given place, and the place of its end. -/
def scan (location : Location) (text : List Char) : List Token × Location :=
  let start := location.after (text.takeWhile isSeparator)
  match _same : text.dropWhile isSeparator with
  | [] => ([], start)
  | c :: cs =>
      let lexeme := (Lexeme.read c cs).1
      let (tokens, finish) := scan (start.after lexeme.source) (Lexeme.read c cs).2
      (⟨lexeme, start⟩ :: tokens, finish)
termination_by text.length
decreasing_by
  have shorter := (List.dropWhile_suffix (l := text) isSeparator).length_le
  rw [_same] at shorter
  have rest := Lexeme.length_read_le c cs
  simp only [List.length_cons] at shorter
  omega

end Source
end GlyphLayout
