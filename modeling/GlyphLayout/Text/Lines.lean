/-!
# Lines of a text

A line ends at a line feed, or at a carriage return followed by one.  A carriage return on
its own stays in its line, and a text that ends with a line feed has no empty last line.
-/

namespace GlyphLayout
namespace Text

/-- Drops the carriage return of a line ending from a reversed line. -/
def dropReturn : List Char → List Char
  | '\r' :: line => line
  | line => line

/-- The lines of the remaining text, where `line` is the current line so far, reversed. -/
def linesFrom (line : List Char) : List Char → List (List Char)
  | [] => if line.isEmpty then [] else [line.reverse]
  | c :: cs =>
      if c = '\n' then (dropReturn line).reverse :: linesFrom [] cs
      else linesFrom (c :: line) cs

/-- The lines of a text. -/
def lines (s : String) : List String :=
  (linesFrom [] s.toList).map String.ofList

/-- No line holds a line feed. -/
theorem newline_not_mem_of_mem_linesFrom
    (line cs : List Char)
    (clean : '\n' ∉ line) :
    ∀ piece ∈ linesFrom line cs, '\n' ∉ piece := by
  induction cs generalizing line with
  | nil =>
      intro piece member
      unfold linesFrom at member
      split at member
      · simp at member
      · simp only [List.mem_singleton] at member
        simpa [member] using clean
  | cons c cs ih =>
      intro piece member
      unfold linesFrom at member
      split at member
      · rcases List.mem_cons.mp member with rfl | member
        · have sub : ∀ x ∈ dropReturn line, x ∈ line := by
            intro x inner
            unfold dropReturn at inner
            split at inner
            · exact List.mem_cons_of_mem _ inner
            · exact inner
          intro inside
          exact clean (sub _ (List.mem_reverse.mp inside))
        · exact ih [] (by simp) piece member
      · rename_i other
        exact ih (c :: line) (by simp [Ne.symm other, clean]) piece member

end Text
end GlyphLayout
