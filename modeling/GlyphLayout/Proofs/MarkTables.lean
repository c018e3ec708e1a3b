import GlyphLayout.Proofs.ActiveMarks
import GlyphLayout.Proofs.ByteOrder
import Mathlib.Data.Prod.Lex

/-!
# Tables of marks

Marks fill two tables side by side: one has the anchors by glyph, class and component, the other a
class of feature files for each mark class.  Taking in statements keeps the two in step, so a mark
class statement always has the class that its mark class was given.  Whether a mark has an anchor
for a class is answered from a single entry.  That is enough because the entries are in the order of
the bytes of the glyph, then of the class, and of the component last.
-/

namespace GlyphLayout

/-! ## The order of places -/

namespace MarkPlace

open Text (bytes)

/-- What places are compared by. -/
def key (place : MarkPlace) : List UInt8 ×ₗ List UInt8 ×ₗ UInt16 :=
  toLex (bytes place.member.glyph, toLex (bytes place.member.markClass, place.component))

/-- The order of the keys is the order of the places. -/
theorem key_lt_key_iff {first second : MarkPlace} : first.key < second.key ↔ first < second := by
  obtain ⟨⟨glyph, markClass⟩, component⟩ := first
  obtain ⟨⟨otherGlyph, otherClass⟩, otherComponent⟩ := second
  simp only [key, Prod.Lex.toLex_lt_toLex, Text.bytes_lt_bytes_iff, Text.bytes_inj]
  change _ ↔ (glyph < otherGlyph ∨ glyph = otherGlyph ∧ markClass < otherClass)
    ∨ MarkMember.mk glyph markClass = ⟨otherGlyph, otherClass⟩ ∧ component < otherComponent
  rw [MarkMember.mk.injEq, and_or_left, or_assoc, and_assoc]

end MarkPlace

namespace Definitions

open Feature (Anchor Document)
open Source (Statement)

variable {statements : List Statement} {definitions : Definitions}

/-! ## One table and the other -/

/-- The anchor of a mark at a place. -/
def markAnchor? (definitions : Definitions) (glyph markClass : String) (component : UInt16) :
    Option Anchor :=
  definitions.markAnchors.get? ⟨⟨glyph, markClass⟩, component⟩

/-- A point is found exactly at the places that have an entry. -/
theorem isSome_markAnchor?_iff
    {glyph markClass : String}
    {component : UInt16} :
    (definitions.markAnchor? glyph markClass component).isSome ↔
      ∃ entry ∈ definitions.markAnchors.entries, entry.1 = ⟨⟨glyph, markClass⟩, component⟩ :=
  (Entries.isSome_find?_iff _ _).trans List.mem_map

/-- A mark has a point on some component exactly if some entry is for its class. -/
theorem exists_isSome_markAnchor?_iff {glyph markClass : String} :
    (∃ component, (definitions.markAnchor? glyph markClass component).isSome) ↔
      ∃ entry ∈ definitions.markAnchors.entries, entry.1.member = ⟨glyph, markClass⟩ := by
  simp only [isSome_markAnchor?_iff]
  constructor
  · rintro ⟨component, entry, present, same⟩
    exact ⟨entry, present, congrArg MarkPlace.member same⟩
  · rintro ⟨entry, present, same⟩
    exact ⟨entry.1.component, entry, present, by rw [← same]⟩

/-- A class has a name exactly if some anchor puts a mark into it. -/
theorem ClassesNamed.isSome_markClassName?_iff
    (named : ClassesNamed statements definitions)
    (markClass : String) :
    (definitions.markClassName? markClass).isSome ↔ markClass ∈ markClassNames statements := by
  rw [named.markClassName_eq]
  split <;> simp [*]

/-- No two classes have the same name. -/
theorem ClassesNamed.markClassName?_inj
    (named : ClassesNamed statements definitions)
    {first second className : String}
    (ofFirst : definitions.markClassName? first = some className)
    (ofSecond : definitions.markClassName? second = some className) :
    first = second := by
  have known (markClass : String) (found : definitions.markClassName? markClass = some className) :
      definitions.classNames.Knows markClass
        ∧ definitions.classNames.identifierOf markClass = className := by
    have member : markClass ∈ markClassNames statements :=
      (named.isSome_markClassName?_iff markClass).mp (Option.isSome_of_eq_some found)
    rw [named.markClassName_eq, if_pos member, Option.some.injEq] at found
    exact ⟨named.markClassesKnown markClass member, found⟩
  obtain ⟨firstKnown, firstClass⟩ := known first ofFirst
  obtain ⟨secondKnown, secondClass⟩ := known second ofSecond
  exact named.distinct.eq_of_identifierOf_eq firstKnown secondKnown
    (firstClass.trans secondClass.symm)

/-- What is assembled has one mark class statement for each place of a mark. -/
theorem markClasses_of_assemble
    {state : Compilation}
    {log : List Notice}
    {document : Document}
    (assembled : assemble definitions state = ⟨log, .ok document⟩) :
    document.markClasses = definitions.markClassBlocks state := by
  obtain ⟨_, merged, _, _, rest, _⟩ := Outcome.bind_eq_ok_iff.mp assembled
  obtain ⟨_, features, _, _, result, _⟩ := Outcome.bind_eq_ok_iff.mp rest
  cases result
  rfl

/-! ## After all statements -/

/-- The tables of marks agree with some statements, with each other and with what is assembled. -/
structure MarksAgree (statements : List Statement) (definitions : Definitions) : Prop where
  /-- There is an anchor at exactly the places at which the statements put marks. -/
  placed : ∀ glyph markClass component,
    (definitions.markAnchor? glyph markClass component).isSome ↔
      ⟨⟨glyph, markClass⟩, component⟩ ∈ markPlaces statements
  /-- The anchors come in the order of the bytes of their glyphs, then of their classes. -/
  ascending : definitions.markAnchors.entries.Pairwise fun first second =>
    first.1.key < second.1.key
  /-- The mark classes that have a class in feature files are those with an anchor. -/
  named : ∀ markClass, (definitions.markClassName? markClass).isSome ↔
    ∃ glyph component, (definitions.markAnchor? glyph markClass component).isSome
  distinct : ∀ first second className, definitions.markClassName? first = some className →
    definitions.markClassName? second = some className → first = second
  /-- Each mark class statement has the class that was given to the mark class of its place. -/
  assembled : ∀ state log document, assemble definitions state = ⟨log, .ok document⟩ →
    List.Forall₂ (fun entry statement =>
        definitions.markClassName? entry.1.member.markClass = some statement.className)
      definitions.markAnchors.entries document.markClasses
  answered : ∀ glyph markClass, definitions.hasMarkAnchor ⟨glyph, markClass⟩ ↔
    ∃ component, (definitions.markAnchor? glyph markClass component).isSome

/-- The tables of marks agree once all statements of a project have been taken in. -/
theorem marksAgree_of_collect
    {glyphOrder : Option GlyphOrder}
    {log : List Notice}
    (collected : collect statements glyphOrder = ⟨log, .ok definitions⟩) :
    MarksAgree statements definitions := by
  have classes := classesNamed_of_collect collected
  constructor
  case placed =>
    intro glyph markClass component
    exact (Entries.isSome_find?_iff _ _).trans (mem_markAnchors_iff_of_collect collected _)
  case ascending => exact definitions.markAnchors.sorted.imp MarkPlace.key_lt_key_iff.mpr
  case named =>
    intro markClass
    rw [classes.isSome_markClassName?_iff, classes.placed]
    simp only [exists_isSome_markAnchor?_iff]
    constructor
    · rintro ⟨entry, present, rfl⟩
      exact ⟨entry.1.member.glyph, entry, present, rfl⟩
    · rintro ⟨glyph, entry, present, same⟩
      exact ⟨entry, present, congrArg MarkMember.markClass same⟩
  case distinct => exact fun _ _ _ => classes.markClassName?_inj
  case assembled =>
    intro state log document assembled
    rw [markClasses_of_assemble assembled, markClassBlocks, List.forall₂_map_right_iff,
      List.forall₂_same]
    intro entry present
    have found := classes.markClassName_of_place present
    exact found.trans (by simp only [found, Option.getD_some])
  case answered =>
    intro glyph markClass
    exact hasMarkAnchor_iff.trans exists_isSome_markAnchor?_iff.symm

/-- A mark of the given class, with an anchor at a component. -/
def markStatement (markClass glyph : String) (component : UInt16) : Statement :=
  .anchor {
    name := "MARK_" ++ markClass
    glyphId := 1
    glyph
    component
    locked := false
    placement := {}
    location := ⟨1, 1⟩ }

/--
Two mark classes and a group whose names are spelled alike in feature files.  One of the marks has
anchors in both classes, and in the second class at its third component alone.
-/
def crowdedMarks : List Statement :=
  [.group ⟨"top mark", [.glyph "a"], ⟨1, 1⟩⟩, markStatement "top-mark" "grave" 1,
    markStatement "top-mark" "acute" 1, markStatement "top+mark" "acute" 3]

theorem marksAgree_of_collect_crowdedMarks :
    ∃ log definitions, collect crowdedMarks none = ⟨log, .ok definitions⟩
      ∧ definitions.markClassName? "top-mark" = some "top_mark_"
      ∧ definitions.markClassName? "top+mark" = some "top_mark__"
      ∧ definitions.markClassName? "top mark" = none
      ∧ definitions.hasMarkAnchor ⟨"acute", "top+mark"⟩ = true
      ∧ definitions.hasMarkAnchor ⟨"acute", "top"⟩ = false
      ∧ MarksAgree crowdedMarks definitions := by
  have names : (collect crowdedMarks none).result.toOption.map (fun definitions =>
      ["top-mark", "top+mark", "top mark"].map definitions.markClassName?) =
        some [some "top_mark_", some "top_mark__", none] := by
    decide +kernel
  have answers : (collect crowdedMarks none).result.toOption.map (fun definitions =>
      ["top+mark", "top"].map fun markClass => definitions.hasMarkAnchor ⟨"acute", markClass⟩) =
        some [true, false] := by
    decide +kernel
  obtain ⟨log, definitions, collected⟩ : ∃ log definitions,
      collect crowdedMarks none = ⟨log, .ok definitions⟩ :=
    Outcome.exists_of_isOk (by decide +kernel)
  simp only [collected, Except.toOption, Option.map_some, Option.some.injEq, List.map_cons,
    List.map_nil, List.cons.injEq, and_true] at names answers
  obtain ⟨first, second, third⟩ := names
  exact ⟨log, definitions, collected, first, second, third, answers.1, answers.2,
    marksAgree_of_collect collected⟩

end Definitions
end GlyphLayout
