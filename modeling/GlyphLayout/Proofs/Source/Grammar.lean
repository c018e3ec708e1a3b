import GlyphLayout.Proofs.Source.AcceptedStatements
import GlyphLayout.Proofs.Source.ReadingStatements

/-!
# The grammar of sources

The parser accepts the canonical text of every well-formed list of statements and reads the
statements back, but for their places.  Every list of statements that it reads from any text is
well-formed, so that it can be written and read again.
-/

namespace GlyphLayout
namespace Source

/-- Without their places, the tokens of a text are its lexemes. -/
theorem unplaced_scan (location : Location) (text : List Char) :
    (Remaining.ofList (scan location text).1).unplaced = .ofLexemes (lexemesOf text) := by
  rw [← map_lexeme_scan location text, Remaining.ofLexemes, List.map_map]
  rfl

/-- What the parser accepts, in terms of the tokens of the text. -/
theorem parse_eq_ok_iff (text : String) (values : List Statement) :
    parse text = .ok values ↔
      ∃ rest, Parser.statements (.ofList (scan .start text.toList).1) = .ok (values, rest) := by
  unfold parse parseTokens
  dsimp only
  split
  · rename_i read rest ran
    rw [ran]
    constructor
    · rintro ⟨⟩
      exact ⟨rest, rfl⟩
    · rintro ⟨_, ⟨⟩⟩
      rfl
  · rename_i failure ran
    rw [ran]
    constructor
    · rintro ⟨⟩
    · rintro ⟨_, ⟨⟩⟩

/-- The canonical text of a well-formed source is read as the source, but for its places. -/
theorem parse_render {values : List Statement} (formed : WellFormed values) :
    ∃ read, parse (render values) = .ok read ∧
      read.map Statement.unplaced = values.map Statement.unplaced := by
  have lexemes : lexemesOf (render values).toList = sourceLexemes values :=
    lexemesOf_render fun statement member => (formed.each statement member).complete
  have agree := Parser.erases_statements.agree (.ofList (scan .start (render values).toList).1)
  rw [unplaced_scan, lexemes, Parser.statements_read formed] at agree
  cases ran : Parser.statements (.ofList (scan .start (render values).toList).1) with
  | error failure =>
      rw [ran] at agree
      cases agree
  | ok result =>
      rw [ran] at agree
      refine ⟨result.1, (parse_eq_ok_iff ..).mpr ⟨result.2, ran⟩, ?_⟩
      exact (congrArg Prod.fst (Except.ok.inj agree)).symm

/-- Whatever is read from a text is a well-formed source. -/
theorem wellFormed_of_parse
    {text : String} {values : List Statement}
    (ran : parse text = .ok values) :
    WellFormed values := by
  obtain ⟨rest, accepted⟩ := (parse_eq_ok_iff ..).mp ran
  exact Parser.wellFormed_of_statements (fun _ member => complete_of_mem_scan member) accepted

/--
The parser accepts its grammar and nothing else: a well-formed list of statements is read back
from its canonical text, up to places, and every list that is read is well-formed.
-/
theorem parse_accepts_grammar :
    (∀ values, WellFormed values →
      ∃ read, parse (render values) = .ok read ∧
        read.map Statement.unplaced = values.map Statement.unplaced) ∧
    ∀ text values, parse text = .ok values → WellFormed values :=
  ⟨fun _ formed => parse_render formed, fun _ _ ran => wellFormed_of_parse ran⟩

/-- Two settings, a group with enumerations inside one another, and a lookup with a comment. -/
def nestedSource : List Statement :=
  [.setting ⟨"GRID_PPEM", [20, -3], .start⟩,
    .setting ⟨"2ND_PASS", [], .start⟩,
    .group ⟨"marks", [.enumeration [.glyph "a", .enumeration [.range "b" "c"], .group "top"]],
      .start⟩,
    .lookup {
      name := "ligatures"
      processBase := true
      marks := .none
      direction := some .leftToRight
      reversal := false
      comments := some "one\ntwo"
      contexts := [⟨.except, [[.glyph "x"], []], []⟩]
      payload := .substitution
        ⟨.ligature, [⟨[.glyph "f", .glyph "i"], [.glyph "fi"], .start⟩], .start⟩
      location := .start }]

theorem nestedSource_wellFormed : WellFormed nestedSource := by
  decide +kernel

theorem parse_accepts_grammar_nested :
    WellFormed nestedSource ∧
      ∃ read, parse (render nestedSource) = .ok read ∧
        read.map Statement.unplaced = nestedSource.map Statement.unplaced ∧
        WellFormed read := by
  obtain ⟨roundTrip, accepted⟩ := parse_accepts_grammar
  obtain ⟨read, ran, same⟩ := roundTrip nestedSource nestedSource_wellFormed
  exact ⟨nestedSource_wellFormed, read, ran, same, accepted _ read ran⟩

end Source
end GlyphLayout
