import GlyphLayout.Proofs.MarkClasses

/-!
# Active mark class statements

A feature file has one mark class statement for each place of a mark.  The statement is active,
that is not commented out, exactly when some lookup of the project attaches the mark.
-/

namespace GlyphLayout

open Feature (Document)
open Source (Statement)

namespace Feature

/-- The statement is written out, and not as a comment. -/
def MarkClass.isActive (definition : MarkClass) : Bool :=
  definition.text.toList.head? ≠ some '#'

theorem MarkClass.isActive_eq_used (definition : MarkClass) :
    definition.isActive = definition.used := by
  cases used : definition.used <;> simp [isActive, MarkClass.text, used]

end Feature

namespace Definitions

/-! ## Places of marks -/

/-- The place at which a statement puts a mark into a mark class. -/
def markPlace? : Statement → Option MarkPlace
  | .anchor anchor =>
      (markClassOf? anchor.name).map fun markClass =>
        ⟨⟨anchor.glyph, markClass⟩, anchor.component⟩
  | _ => none

/-- The places at which some statements put marks into mark classes. -/
def markPlaces (statements : List Statement) : List MarkPlace :=
  statements.filterMap markPlace?

theorem markPlace?_of_markClass?_none
    {statement : Statement}
    (none : markClass? statement = none) :
    markPlace? statement = Option.none := by
  cases statement with
  | anchor anchor => exact Option.map_eq_none_iff.mpr none
  | _ => rfl

/-- The places that are kept are those that the statements give, each of them once. -/
theorem mem_markAnchors_iff_of_collect
    {statements : List Statement}
    {glyphOrder : Option GlyphOrder}
    {definitions : Definitions}
    {log : List Notice}
    (collected : collect statements glyphOrder = ⟨log, .ok definitions⟩)
    (place : MarkPlace) :
    place ∈ definitions.markAnchors.entries.map Prod.fst ↔ place ∈ markPlaces statements := by
  let complete (done : List Statement) (definitions : Definitions) : Prop :=
    place ∈ definitions.markAnchors.entries.map Prod.fst ↔ place ∈ markPlaces done
  have start : complete [] { glyphOrder } := Iff.rfl
  refine collect_induction start (fun done statement before after holds step => ?_) collected
  unfold complete at holds ⊢
  rw [markPlaces, List.filterMap_append, List.mem_append, ← markPlaces, ← holds]
  cases step with
  | group resolved expanded => simp [markPlace?]
  | @markAnchor anchor markClass point named =>
      rw [addMarkAnchor_eq]
      refine SortedMap.mem_map_fst_put_iff.trans ?_
      simp [markPlace?, named, or_comm]
  | other noGroup noMark classNames groups markClasses markAnchors =>
      rw [markAnchors]
      simp [markPlace?_of_markClass?_none noMark]

/-- The statement puts the mark at a place into its class, under the names of a feature file. -/
structure IsStatementAt (definitions : Definitions) (place : MarkPlace)
    (statement : Feature.MarkClass) : Prop where
  glyph_eq : statement.glyph = .glyph (definitions.outputName place.member.glyph)
  className_eq : definitions.markClassName? place.member.markClass = some statement.className
  anchored : (place, statement.anchor) ∈ definitions.markAnchors.entries

end Definitions

/-! ## Conversions -/

open Compilation

/--
A converted project has one mark class statement for each place of a mark, in the order of the
places.  It is active exactly if some lookup attaches the mark.
-/
theorem convert_markClass_isActive_iff
    {statements : List Statement}
    {glyphOrder : Option GlyphOrder}
    {options : Options}
    {log : List Notice}
    {document : Document}
    (converted : convert statements glyphOrder options = ⟨log, .ok document⟩) :
    ∃ definitions places, (Definitions.collect statements glyphOrder).result = .ok definitions
      ∧ places.Pairwise (· < ·)
      ∧ (∀ place, place ∈ places ↔ place ∈ Definitions.markPlaces statements)
      ∧ List.Forall₂ definitions.IsStatementAt places document.markClasses
      ∧ List.Forall₂ (fun place statement => statement.isActive ↔
          ∃ lookup ∈ lookupsOf statements, definitions.Attaches lookup place.member)
        places document.markClasses := by
  obtain ⟨_, definitions, _, state, collected, compiled, _, marks_eq, _⟩ :=
    sources_of_convert converted
  have named := Definitions.classesNamed_of_collect collected
  refine ⟨definitions, definitions.markAnchors.entries.map Prod.fst, by rw [collected],
    List.pairwise_map.mpr definitions.markAnchors.sorted,
    Definitions.mem_markAnchors_iff_of_collect collected, ?_, ?_⟩
  · rw [marks_eq, Definitions.markClassBlocks, List.forall₂_map_left_iff,
      List.forall₂_map_right_iff, List.forall₂_same]
    intro entry present
    have found := named.markClassName_of_place present
    exact ⟨rfl, found.trans (by simp only [found, Option.getD_some]), present⟩
  · rw [marks_eq, Definitions.markClassBlocks, List.forall₂_map_left_iff,
      List.forall₂_map_right_iff, List.forall₂_same]
    intro entry present
    rw [Feature.MarkClass.isActive_eq_used]
    exact uses_iff_of_ofStatements compiled

/-- A lookup that attaches a mark to a base in some contexts. -/
def attachingIn (contexts : List Source.ContextDefinition) (name mark : String) : Statement :=
  lookupNamed name contexts (.positioning (.attach [.glyph "a"] [([.glyph mark], "top")]))

/--
Two marks of one class, where the first is attached through a helper, and the second by a
lookup that only says where it does not apply.
-/
def markInContexts : List Statement :=
  markedBase "top" ++ [
    .anchor {
      name := "MARK_top"
      glyphId := 3
      glyph := "grave"
      component := 1
      locked := false
      placement := {}
      location := ⟨1, 1⟩ },
    attachingIn [⟨.except, [[.glyph "x"]], []⟩] "first" "acute",
    attachingIn [⟨.except, [[.glyph "x"]], []⟩, ⟨.except, [], [[.glyph "y"]]⟩] "second" "grave"]

theorem convert_markClass_isActive_iff_markInContexts :
    ∃ log document, convert markInContexts none {} = ⟨log, .ok document⟩
      ∧ document.markClasses.map Feature.MarkClass.isActive = [true, false]
      ∧ ∃ definitions places,
          (Definitions.collect markInContexts none).result = .ok definitions
            ∧ places.Pairwise (· < ·)
            ∧ (∀ place, place ∈ places ↔
                place ∈ [(⟨⟨"acute", "top"⟩, 1⟩ : MarkPlace), ⟨⟨"grave", "top"⟩, 1⟩])
            ∧ List.Forall₂ definitions.IsStatementAt places document.markClasses
            ∧ List.Forall₂ (fun place statement => statement.isActive ↔
                ∃ lookup ∈ lookupsOf markInContexts, definitions.Attaches lookup place.member)
              places document.markClasses := by
  have active : (convert markInContexts none {}).result.toOption.map (fun document =>
      document.markClasses.map Feature.MarkClass.isActive) = some [true, false] := by
    decide +kernel
  obtain ⟨log, document, converted⟩ : ∃ log document,
      convert markInContexts none {} = ⟨log, .ok document⟩ :=
    Outcome.exists_of_isOk (by decide +kernel)
  simp only [converted, Except.toOption, Option.map_some, Option.some.injEq] at active
  have places_eq : Definitions.markPlaces markInContexts =
      [⟨⟨"acute", "top"⟩, 1⟩, ⟨⟨"grave", "top"⟩, 1⟩] := by
    decide +kernel
  have facts := convert_markClass_isActive_iff converted
  rw [places_eq] at facts
  exact ⟨log, document, converted, active, facts⟩

end GlyphLayout
