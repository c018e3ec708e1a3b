/-!
# Pieces of a text

A text cut at each occurrence of a separator.  There is one piece more than there are
separators, so that the pieces determine the text.
-/

namespace GlyphLayout
namespace Text

/-- The pieces of a text between separators. -/
def pieces (separator : Char) : List Char → List (List Char)
  | [] => [[]]
  | c :: cs =>
      match pieces separator cs with
      | [] => [[]]
      | piece :: rest => if c = separator then [] :: piece :: rest else (c :: piece) :: rest

theorem pieces_ne_nil (separator : Char) (cs : List Char) : pieces separator cs ≠ [] := by
  unfold pieces
  split
  · simp
  · split
    · simp
    · split <;> simp

/-- The pieces with separators between them are the text. -/
theorem intercalate_pieces (separator : Char) (cs : List Char) :
    [separator].intercalate (pieces separator cs) = cs := by
  induction cs with
  | nil => rfl
  | cons c cs ih =>
      have some := pieces_ne_nil separator cs
      unfold pieces
      cases found : pieces separator cs with
      | nil => exact absurd found some
      | cons piece rest =>
          rw [found] at ih
          by_cases same : c = separator
          · simp only [same, if_pos]
            rw [List.intercalate_cons_cons]
            simp [ih]
          · simp only [same, if_false]
            rw [← ih]
            cases rest <;> simp [List.intercalate, List.intersperse]

/-- No piece holds a separator. -/
theorem separator_not_mem_of_mem_pieces
    {separator : Char} {cs piece : List Char}
    (member : piece ∈ pieces separator cs) :
    separator ∉ piece := by
  induction cs generalizing piece with
  | nil => simp_all [pieces]
  | cons c cs ih =>
      unfold pieces at member
      cases found : pieces separator cs with
      | nil => simp_all
      | cons first rest =>
          rw [found] at member ih
          by_cases same : c = separator
          · simp only [same, if_pos] at member
            rcases List.mem_cons.mp member with rfl | later
            · simp
            · exact ih later
          · simp only [same, if_false] at member
            rcases List.mem_cons.mp member with rfl | later
            · have clean := ih (List.mem_cons_self ..)
              simp [Ne.symm same, clean]
            · exact ih (List.mem_cons_of_mem _ later)

end Text
end GlyphLayout
