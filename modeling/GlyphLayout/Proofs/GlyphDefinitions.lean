import GlyphLayout.Proofs.GlyphTable
import GlyphLayout.Proofs.Leaves

/-!
# The table of glyph classes

The table lists, kind by kind, the glyphs that a project defines to be of the kind, each by its
name in the font and as often as it is defined.  So a name stands there twice exactly if two of
these definitions have it.
-/

namespace GlyphLayout

open Feature (Document Glyphs)
open Source (GlyphDefinition GlyphKind Statement)

namespace Feature

/-- The names in the table of glyph classes, class by class. -/
def Document.classifiedNames (document : Document) : List String :=
  document.definitions.toList.flatMap fun classes =>
    Glyphs.glyphNamesOf (classes.base ++ classes.ligature ++ classes.mark ++ classes.component)

/-- No name stands twice in the table of glyph classes, in one class or in two. -/
def Document.ClassifiedOnce (document : Document) : Prop :=
  document.classifiedNames.Nodup

end Feature

namespace Definitions

/-- The glyphs that some statements put into a class, in order. -/
def classifiedGlyphs (statements : List Statement) : List GlyphDefinition :=
  (definedGlyphs statements).filter (·.kind.isSome)

/-- The name that a font gives to the id of a glyph; without a glyph order, its own. -/
def nameIn (glyphOrder : Option GlyphOrder) (glyph : GlyphDefinition) : String :=
  (glyphOrder.bind (·.get? glyph.id)).getD glyph.name

theorem nameIn_of_nameFor
    {definitions : Definitions}
    {glyph : GlyphDefinition}
    {outputName : String}
    (named : definitions.nameFor glyph = .ok outputName) :
    nameIn definitions.glyphOrder glyph = outputName := by
  unfold nameFor at named
  unfold nameIn
  cases ordered : definitions.glyphOrder with
  | none =>
      rw [ordered] at named
      cases named
      rfl
  | some order =>
      simp only [ordered] at named
      split at named
      · rename_i found
        cases named
        simp [found]
      · cases named

/-- What is known of the table after some statements. -/
structure GlyphsClassified (glyphOrder : Option GlyphOrder) (statements : List Statement)
    (definitions : Definitions) : Prop where
  order_eq : definitions.glyphOrder = glyphOrder
  slot_eq : ∀ kind, slot kind definitions.glyphClasses =
    (glyphsOfKind statements kind).map fun glyph => .glyph (nameIn glyphOrder glyph)

theorem glyphsClassified_nil (glyphOrder : Option GlyphOrder) :
    GlyphsClassified glyphOrder [] { glyphOrder } where
  order_eq := rfl
  slot_eq kind := by cases kind <;> rfl

theorem GlyphsClassified.step
    {glyphOrder : Option GlyphOrder}
    {statements : List Statement}
    {statement : Statement}
    {definitions next : Definitions}
    (classified : GlyphsClassified glyphOrder statements definitions)
    (step : GlyphStep definitions statement next) :
    GlyphsClassified glyphOrder (statements ++ [statement]) next := by
  refine ⟨step.glyphOrder_eq.trans classified.order_eq, fun kind => ?_⟩
  cases step with
  | glyph named _ _ _ glyphClasses =>
      have name := nameIn_of_nameFor named
      rw [classified.order_eq] at name
      rw [glyphClasses, slot_classify, classified.slot_eq, glyphsOfKind_snoc, List.map_append,
        glyphsOfKind_singleton]
      split <;> simp [name]
  | other noGlyph _ _ _ glyphClasses =>
      rw [glyphClasses, classified.slot_eq, glyphsOfKind_snoc, glyphsOfKind_of_noGlyph noGlyph,
        List.append_nil]

theorem glyphsClassified_of_collect
    {glyphOrder : Option GlyphOrder}
    {statements : List Statement}
    {definitions : Definitions}
    {log : List Notice}
    (collected : collect statements glyphOrder = ⟨log, .ok definitions⟩) :
    GlyphsClassified glyphOrder statements definitions :=
  collect_induction_add (glyphsClassified_nil glyphOrder)
    (fun _ _ _ _ _ classified added => classified.step (glyphStep_of_add added)) collected

/-- The glyphs of the four kinds together are those that have a kind. -/
theorem glyphsOfKind_perm (statements : List Statement) :
    (glyphsOfKind statements .base ++ glyphsOfKind statements .ligature
        ++ glyphsOfKind statements .mark ++ glyphsOfKind statements .component).Perm
      (classifiedGlyphs statements) := by
  unfold glyphsOfKind classifiedGlyphs
  induction definedGlyphs statements with
  | nil => exact .nil
  | cons glyph rest ih =>
      rcases same : glyph.kind with _ | kind
      · simpa [same] using ih
      · -- The glyph stands in one of the four lists, in front of which it may be moved.
        cases kind <;> simp [same] <;> grind [List.perm_middle]

end Definitions

open Definitions

/-- The names in the table are those of the glyphs of its classes, one after the other. -/
theorem classifiedNames_of_slots
    {document : Document}
    {names : GlyphKind → List String}
    (slots : ∀ kind, slot kind (document.definitions.getD {}) = (names kind).map .glyph) :
    document.classifiedNames =
      names .base ++ names .ligature ++ names .mark ++ names .component := by
  have listed : document.classifiedNames = Glyphs.glyphNamesOf
      (slot .base (document.definitions.getD {}) ++ slot .ligature (document.definitions.getD {})
        ++ slot .mark (document.definitions.getD {})
        ++ slot .component (document.definitions.getD {})) := by
    rw [Document.classifiedNames]
    cases document.definitions with
    | none => rfl
    | some classes => simp [slot]
  rw [listed, slots, slots, slots, slots]
  simp only [← List.map_append, Glyphs.glyphNamesOf_map_glyph]

/--
The classes of a converted project hold the glyphs of their kinds, in the order of their
definitions and by their names in the font.  No name stands in the table twice exactly if no two
definitions that put a glyph into a class have one name in the font.
-/
theorem convert_classifiedOnce_iff
    {statements : List Statement}
    {glyphOrder : Option GlyphOrder}
    {options : Options}
    {log : List Notice}
    {document : Document}
    (converted : convert statements glyphOrder options = ⟨log, .ok document⟩) :
    (∀ kind, slot kind (document.definitions.getD {}) =
        ((glyphsOfKind statements kind).map (nameIn glyphOrder)).map .glyph)
      ∧ (document.ClassifiedOnce ↔
          (classifiedGlyphs statements).Pairwise fun first second =>
            nameIn glyphOrder first ≠ nameIn glyphOrder second) := by
  obtain ⟨_, definitions, collected, same⟩ := definitions_of_convert converted
  have slots (kind : GlyphKind) : slot kind (document.definitions.getD {}) =
      ((glyphsOfKind statements kind).map (nameIn glyphOrder)).map .glyph := by
    rw [same, (glyphsClassified_of_collect collected).slot_eq, List.map_map]
    rfl
  refine ⟨slots, ?_⟩
  rw [Document.ClassifiedOnce, classifiedNames_of_slots slots]
  simp only [← List.map_append]
  rw [((glyphsOfKind_perm statements).map _).nodup_iff, List.Nodup, List.pairwise_map]

/-- The definition of a glyph of the given kind. -/
def glyphOf (name : String) (id : UInt16) (kind : Option GlyphKind) : Statement :=
  .glyph ⟨name, id, [], kind, none, .start⟩

/-- A letter that is defined once with a kind and once without, and a mark. -/
def letterAndMark : List Statement :=
  [glyphOf "a" 1 (some .base), glyphOf "acute" 2 (some .mark), glyphOf "a" 1 none]

theorem convert_classifiedOnce_iff_letterAndMark :
    ∃ log document,
      convert letterAndMark (some ⟨#[".notdef", "uni0061", "uni0301"]⟩) {} =
          ⟨log, .ok document⟩
        ∧ slot .mark (document.definitions.getD {}) = [.glyph "uni0301"]
        ∧ document.ClassifiedOnce := by
  obtain ⟨log, document, converted⟩ : ∃ log document,
      convert letterAndMark (some ⟨#[".notdef", "uni0061", "uni0301"]⟩) {} =
        ⟨log, .ok document⟩ :=
    Outcome.exists_of_isOk (by decide +kernel)
  obtain ⟨slots, once⟩ := convert_classifiedOnce_iff converted
  exact ⟨log, document, converted, slots .mark, once.mpr (by decide)⟩

/-- A glyph that is defined as a letter and again as a mark stands in both classes. -/
theorem exists_not_classifiedOnce :
    ¬ ∀ (statements : List Statement) (glyphOrder : Option GlyphOrder) (options : Options)
      (log : List Notice) (document : Document),
      convert statements glyphOrder options = ⟨log, .ok document⟩ →
        document.ClassifiedOnce := by
  intro always
  have names : (convert [glyphOf "a" 1 (some .base), glyphOf "a" 1 (some .mark)]
      none {}).result.toOption.map Document.classifiedNames = some ["a", "a"] := by
    decide +kernel
  obtain ⟨log, document, converted⟩ : ∃ log document,
      convert [glyphOf "a" 1 (some .base), glyphOf "a" 1 (some .mark)] none {} =
        ⟨log, .ok document⟩ :=
    Outcome.exists_of_isOk (by decide +kernel)
  simp only [converted, Except.toOption, Option.map_some, Option.some.injEq] at names
  have once := always _ none {} log document converted
  rw [Document.ClassifiedOnce, names] at once
  exact absurd once (by decide)

end GlyphLayout
