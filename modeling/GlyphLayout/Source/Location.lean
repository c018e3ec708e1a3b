/-!
# Locations

A place in a source text, as a line and a column that both start from one.
-/

namespace GlyphLayout
namespace Source

/-- A place in a source text. -/
structure Location where
  /-- The number of the line. -/
  line : Nat
  /-- The number of the character in its line. -/
  column : Nat
deriving Repr, DecidableEq

namespace Location

/-- The place of the first character. -/
def start : Location := ⟨1, 1⟩

/-- The place behind a character that stands at the given place. -/
def next (location : Location) (c : Char) : Location :=
  if c = '\n' then ⟨location.line + 1, 1⟩ else ⟨location.line, location.column + 1⟩

/-- The place behind a text that starts at the given place. -/
def after (location : Location) (text : List Char) : Location :=
  text.foldl next location

@[simp] theorem after_nil (location : Location) : location.after [] = location := rfl

theorem after_append (location : Location) (first second : List Char) :
    location.after (first ++ second) = (location.after first).after second :=
  List.foldl_append

/-- The line and the column, with a colon between them. -/
def text (location : Location) : String :=
  s!"{location.line}:{location.column}"

instance : ToString Location := ⟨text⟩

end Location
end Source
end GlyphLayout
