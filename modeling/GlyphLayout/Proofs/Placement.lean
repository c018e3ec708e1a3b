import GlyphLayout.Conversion
import GlyphLayout.Proofs.Compiling

/-!
# The place of lookups

Collecting definitions passes over the lookups of a project, and compiling lookups passes over
all else.  So a project comes to the same end, with the same notices, wherever its lookups
stand among its other statements.
-/

namespace GlyphLayout

open Compilation (lookupsOf)
open Source (LookupDefinition Statement)

/-- The statement defines a lookup. -/
def Source.Statement.isLookup : Statement → Bool
  | .lookup _ => true
  | _ => false

/-- The statements of a project other than lookups. -/
def otherStatements (statements : List Statement) : List Statement :=
  statements.filter (!·.isLookup)

namespace Definitions

/-- A lookup leaves the definitions alone and says nothing. -/
theorem add_of_isLookup
    {statement : Statement}
    (isLookup : statement.isLookup)
    (definitions : Definitions) :
    definitions.add statement = pure definitions := by
  cases statement with
  | lookup => rfl
  | _ => cases isLookup

theorem foldlM_add_otherStatements (statements : List Statement) (definitions : Definitions) :
    (otherStatements statements).foldlM add definitions = statements.foldlM add definitions := by
  induction statements generalizing definitions with
  | nil => rfl
  | cons statement rest ih =>
      cases isLookup : statement.isLookup with
      | true =>
          rw [List.foldlM_cons, add_of_isLookup isLookup, pure_bind, ← ih]
          simp [otherStatements, isLookup]
      | false =>
          have kept : otherStatements (statement :: rest) =
              statement :: otherStatements rest := by
            simp [otherStatements, isLookup]
          rw [kept, List.foldlM_cons, List.foldlM_cons]
          exact congrArg _ (funext ih)

/-- The definitions of a project are those of its statements other than lookups. -/
theorem collect_otherStatements
    (statements : List Statement)
    (glyphOrder : Option GlyphOrder) :
    collect (otherStatements statements) glyphOrder = collect statements glyphOrder := by
  rw [collect, collect, foldlM_add_otherStatements]

end Definitions

namespace Compilation

variable {definitions : Definitions} {options : Options}

/-- A statement other than a lookup leaves what has been compiled alone and says nothing. -/
theorem addStatement_of_not_isLookup
    {statement : Statement}
    (other : statement.isLookup = false)
    (state : Compilation) :
    addStatement definitions options state statement = pure state := by
  cases statement with
  | lookup => cases other
  | _ => rfl

theorem foldlM_addStatement (statements : List Statement) (state : Compilation) :
    statements.foldlM (addStatement definitions options) state =
      (lookupsOf statements).foldlM (addLookup definitions options) state := by
  induction statements generalizing state with
  | nil => rfl
  | cons statement rest ih =>
      cases statement with
      | lookup lookup =>
          change addLookup definitions options state lookup >>= _ =
            addLookup definitions options state lookup >>= _
          exact congrArg _ (funext ih)
      | _ =>
          rw [List.foldlM_cons, addStatement_of_not_isLookup rfl, pure_bind, ih]
          rfl

/-- What is compiled depends on the lookups of a project and their order alone. -/
theorem ofStatements_congr
    {first second : List Statement}
    (sameLookups : lookupsOf first = lookupsOf second) :
    ofStatements definitions options first = ofStatements definitions options second := by
  rw [ofStatements, ofStatements, foldlM_addStatement, foldlM_addStatement, sameLookups]

end Compilation

/--
Two projects with the same lookups in one order, and the same other statements in one order,
are converted to the same feature file or end in the same error, with the same notices.
-/
theorem convert_eq_of_sameParts
    {first second : List Statement}
    (sameLookups : lookupsOf first = lookupsOf second)
    (sameOthers : otherStatements first = otherStatements second)
    (glyphOrder : Option GlyphOrder)
    (options : Options) :
    convert first glyphOrder options = convert second glyphOrder options := by
  have collected : Definitions.collect first glyphOrder =
      Definitions.collect second glyphOrder := by
    rw [← Definitions.collect_otherStatements first, sameOthers,
      Definitions.collect_otherStatements]
  rw [convert, convert, collected]
  exact congrArg _ (funext fun definitions => by
    rw [Compilation.ofStatements_congr sameLookups])

/-- A lookup that substitutes the glyphs of a group, a pair positioning, and what they need. -/
def lookupsInFront : List Statement :=
  [Compilation.lookupNamed "swash" []
      (.substitution ⟨.single, [⟨[.group "Vowels"], [.glyph "b"], ⟨1, 1⟩⟩], ⟨1, 1⟩⟩),
    Compilation.kerning "kern" [("A", "V"), ("T", "V")],
    .group ⟨"vowels", [.glyph "a", .glyph "e"], ⟨1, 1⟩⟩,
    Compilation.kernFeature ["kern"]]

/-- The same lookups behind and between the other statements. -/
def lookupsBehind : List Statement :=
  [.group ⟨"vowels", [.glyph "a", .glyph "e"], ⟨1, 1⟩⟩,
    Compilation.lookupNamed "swash" []
      (.substitution ⟨.single, [⟨[.group "Vowels"], [.glyph "b"], ⟨1, 1⟩⟩], ⟨1, 1⟩⟩),
    Compilation.kernFeature ["kern"],
    Compilation.kerning "kern" [("A", "V"), ("T", "V")]]

theorem convert_eq_of_sameParts_inFrontAndBehind :
    lookupsOf lookupsInFront = lookupsOf lookupsBehind
      ∧ otherStatements lookupsInFront = otherStatements lookupsBehind
      ∧ (convert lookupsInFront none {}).result.isOk
      ∧ convert lookupsInFront none {} = convert lookupsBehind none {} :=
  ⟨rfl, rfl, by decide +kernel, convert_eq_of_sameParts rfl rfl none {}⟩

end GlyphLayout
