/-!
# Joined texts

Texts in a row with a separator between neighbours, and numbers in decimal.
-/

namespace GlyphLayout
namespace Text

/-- The pieces in a row, with the separator between neighbours. -/
def joined (separator : String) : List String → String
  | [] => ""
  | piece :: rest => rest.foldl (fun text next => text ++ separator ++ next) piece

@[simp] theorem joined_nil (separator : String) : joined separator [] = "" := rfl

@[simp] theorem joined_singleton (separator piece : String) :
    joined separator [piece] = piece := rfl

theorem joined_cons_cons (separator piece next : String) (rest : List String) :
    joined separator (piece :: next :: rest) =
      piece ++ separator ++ joined separator (next :: rest) := by
  have move (start : String) :
      rest.foldl (fun text next => text ++ separator ++ next) (piece ++ separator ++ start) =
        piece ++ separator ++ rest.foldl (fun text next => text ++ separator ++ next) start := by
    induction rest generalizing start with
    | nil => rfl
    | cons head tail ih =>
        simp only [List.foldl_cons]
        rw [← ih]
        simp only [String.append_assoc]
  exact move next

/-- An integer in decimal, with a minus sign if it is negative. -/
def decimal (value : Int) : String :=
  match value with
  | .ofNat magnitude => String.ofList (Nat.toDigits 10 magnitude)
  | .negSucc below => "-" ++ String.ofList (Nat.toDigits 10 (below + 1))

end Text
end GlyphLayout
