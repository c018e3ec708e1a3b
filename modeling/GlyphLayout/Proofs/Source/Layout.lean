import GlyphLayout.Proofs.Source.Grammar

/-!
# Layout does not matter

What is read from a text, or what is wrong with it, depends on its lexemes.  Blanks, line breaks
and lexemes without anything between them have an effect on nothing but places.
-/

namespace GlyphLayout
namespace Source

/-- What comes of reading a text, but for the places in it. -/
def withoutPlaces (result : Except SyntaxError (List Statement)) :
    Except Problem (List Statement) :=
  (result.mapError SyntaxError.problem).map (List.map Statement.unplaced)

@[simp] theorem withoutPlaces_ok (values : List Statement) :
    withoutPlaces (.ok values) = .ok (values.map Statement.unplaced) := rfl

@[simp] theorem withoutPlaces_error (error : SyntaxError) :
    withoutPlaces (.error error) = .error error.problem := rfl

/-- The same comes of two texts if both are read, to the same statements, or have one problem. -/
theorem withoutPlaces_eq_iff {first second : Except SyntaxError (List Statement)} :
    withoutPlaces first = withoutPlaces second ↔
      (∃ read other, first = .ok read ∧ second = .ok other ∧
        read.map Statement.unplaced = other.map Statement.unplaced) ∨
      ∃ problem place elsewhere,
        first = .error ⟨problem, place⟩ ∧ second = .error ⟨problem, elsewhere⟩ := by
  constructor
  · intro same
    cases first with
    | ok read =>
        cases second with
        | ok other => exact .inl ⟨read, other, rfl, rfl, Except.ok.inj same⟩
        | error failure => cases same
    | error error =>
        cases second with
        | ok other => cases same
        | error failure =>
            obtain ⟨problem, place⟩ := error
            obtain ⟨other, elsewhere⟩ := failure
            obtain rfl : problem = other := Except.error.inj same
            exact .inr ⟨problem, place, elsewhere, rfl, rfl⟩
  · rintro (⟨read, other, rfl, rfl, same⟩ | ⟨problem, place, elsewhere, rfl, rfl⟩)
    · rw [withoutPlaces_ok, withoutPlaces_ok, same]
    · rfl

/-- What comes of lexemes that stand nowhere in particular. -/
def readLexemes (lexemes : List Lexeme) : Except Problem (List Statement) :=
  match Parser.statements (.ofLexemes lexemes) with
  | .ok (values, _) => .ok values
  | .error failure => .error failure.problem

/-- What comes of a text is what comes of its lexemes. -/
theorem withoutPlaces_parse (text : String) :
    withoutPlaces (parse text) = readLexemes (lexemesOf text.toList) := by
  have agree := Parser.erases_statements.agree (.ofList (scan .start text.toList).1)
  rw [unplaced_scan] at agree
  unfold parse parseTokens readLexemes
  rw [agree]
  dsimp only
  cases Parser.statements (.ofList (scan .start text.toList).1) <;> rfl

/--
Two texts with the same lexemes are either both read, to the same statements but for their places,
or both refused for the same problem, but for its place.
-/
theorem parse_of_lexemesOf_eq
    {first second : String}
    (same : lexemesOf first.toList = lexemesOf second.toList) :
    (∃ read other, parse first = .ok read ∧ parse second = .ok other ∧
      read.map Statement.unplaced = other.map Statement.unplaced) ∨
    ∃ problem place elsewhere,
      parse first = .error ⟨problem, place⟩ ∧ parse second = .error ⟨problem, elsewhere⟩ := by
  rw [← withoutPlaces_eq_iff, withoutPlaces_parse, withoutPlaces_parse, same]

/-- A group on one line, without blanks around its strings. -/
def denseGroup : String :=
  "DEF_GROUP\"caps\"ENUM GLYPH\"A\"END_ENUM END_GROUP"

/-- The same group over several lines. -/
def airyGroup : String :=
  "DEF_GROUP \"caps\"\n ENUM GLYPH \"A\"\n END_ENUM\r\nEND_GROUP\n"

theorem parse_of_lexemesOf_eq_group :
    lexemesOf denseGroup.toList = lexemesOf airyGroup.toList ∧
      denseGroup ≠ airyGroup ∧
      ∃ read other, parse denseGroup = .ok read ∧ parse airyGroup = .ok other ∧
        read.map Statement.unplaced = other.map Statement.unplaced := by
  have same : lexemesOf denseGroup.toList = lexemesOf airyGroup.toList := by decide +kernel
  have read : (parse denseGroup).toOption.isSome = true := by decide +kernel
  refine ⟨same, by decide, (parse_of_lexemesOf_eq same).resolve_right ?_⟩
  rintro ⟨problem, place, elsewhere, refused, -⟩
  rw [refused] at read
  cases read

end Source
end GlyphLayout
