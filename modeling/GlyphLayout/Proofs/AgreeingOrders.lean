import GlyphLayout.Proofs.ActiveMarks
import GlyphLayout.Proofs.ComparedRuns
import GlyphLayout.Proofs.GlyphTable
import GlyphLayout.Proofs.SameUnless

/-!
# Agreeing glyph orders

A glyph order is needed for two things: it names the glyphs that are defined, and it expands
ranges.  Without one a range ends the conversion.  So a conversion that gets by without a glyph
order comes to the same end with one that calls each defined glyph by its own name.
-/

namespace GlyphLayout

open Source (GlyphDefinition Statement)

/-- A range cannot be expanded for lack of a glyph order. -/
def ConversionError.isMissingOrder : ConversionError → Bool
  | missingGlyphOrder .. => true
  | _ => false

open ConversionError (isMissingOrder)

/-- Two runs are the same unless a range in the first one lacks a glyph order. -/
abbrev Comparison.unlessMissingOrder : Comparison :=
  .unless isMissingOrder

open Comparison (unlessMissingOrder)

/-- The second run has the given glyph order. -/
def Variation.inFont (order : GlyphOrder) : Variation :=
  ⟨fun _ => some order, id⟩

namespace Definitions

/-- The same definitions for a font with the given glyph order. -/
def inFont (definitions : Definitions) (order : GlyphOrder) : Definitions :=
  { definitions with glyphOrder := some order }

variable {definitions : Definitions}

/-- Nothing that is looked up depends on the glyph order, unless a range lacks one. -/
theorem compares_inFont
    (lacks : definitions.glyphOrder = none)
    (order : GlyphOrder) :
    Compares unlessMissingOrder (.inFont order) id definitions where
  group _ _ := .refl _
  orderForRange first location := by
    rw [orderForRange, lacks]
    exact SameUnless.of_stops rfl _

end Definitions

theorem Compilation.sameUnless_ofStatements
    {definitions : Definitions}
    {options : Options}
    (lacks : definitions.glyphOrder = none)
    (order : GlyphOrder)
    (statements : List Statement) :
    unlessMissingOrder.SameRun
      (ofStatements definitions options statements)
      (ofStatements (definitions.inFont order) options statements) := by
  have same : unlessMissingOrder.SameRun
      (ofStatements definitions options statements)
      (ofStatements (definitions.inFont order) options
        (statements.map (Statement.respell id))) :=
    sameRun_ofStatements (Definitions.compares_inFont lacks order) statements
  rwa [Source.map_respell_id] at same

/-! ## Definitions -/

/-- The glyph order calls the glyph that a statement defines by its own name. -/
def GlyphOrder.AgreesWith (order : GlyphOrder) (statement : Statement) : Prop :=
  ∀ glyph, statement = .glyph glyph → order.get? glyph.id = some glyph.name

namespace Definitions

variable {definitions : Definitions} {order : GlyphOrder}

/-- A glyph that the glyph order calls by its own name is called so without a glyph order. -/
theorem nameFor_inFont
    {glyph : GlyphDefinition}
    (lacks : definitions.glyphOrder = none)
    (named : order.get? glyph.id = some glyph.name) :
    (definitions.inFont order).nameFor glyph = definitions.nameFor glyph := by
  simp only [nameFor, inFont, lacks, named]

theorem addScript_inFont (script : Source.ScriptDefinition) :
    (definitions.inFont order).addScript script =
      (inFont · order) <$> definitions.addScript script := by
  rw [addScript, addScript, map_bind]
  rfl

/-- A statement is taken in under an agreeing glyph order as it is without one. -/
theorem sameUnless_add
    {statement : Statement}
    (lacks : definitions.glyphOrder = none)
    (agrees : order.AgreesWith statement) :
    unlessMissingOrder.SameRun ((inFont · order) <$> definitions.add statement)
      ((definitions.inFont order).add statement) := by
  have same := sameRun_add (compares_inFont lacks order)
    (fun glyph defines => nameFor_inFont lacks (agrees glyph defines))
    fun script _ => (Source.ScriptDefinition.respell_id script).symm ▸ addScript_inFont script
  rwa [Source.Statement.respell_id] at same

theorem sameUnless_foldlM_add
    {statements : List Statement}
    (lacks : definitions.glyphOrder = none)
    (agrees : ∀ statement ∈ statements, order.AgreesWith statement) :
    unlessMissingOrder.SameRun ((inFont · order) <$> statements.foldlM add definitions)
      (statements.foldlM add (definitions.inFont order)) := by
  induction statements generalizing definitions with
  | nil => exact .refl _
  | cons statement rest ih =>
      rw [List.forall_mem_cons] at agrees
      rw [List.foldlM_cons, List.foldlM_cons, map_bind]
      refine Outcome.SameUnless.bind_map (sameUnless_add lacks agrees.1) fun next added => ?_
      have result : definitions.add statement = ⟨(definitions.add statement).log, .ok next⟩ := by
        rw [← added]
      have step : GlyphStep definitions statement next := glyphStep_of_add result
      exact ih (step.glyphOrder_eq.trans lacks) agrees.2

/-- The definitions of a project are the same under a glyph order that agrees with it. -/
theorem sameUnless_collect
    {statements : List Statement}
    (agrees : ∀ statement ∈ statements, order.AgreesWith statement) :
    unlessMissingOrder.SameRun ((inFont · order) <$> collect statements none)
      (collect statements (some order)) := by
  rw [collect, collect, map_bind]
  exact (sameUnless_foldlM_add rfl agrees).bind_map fun _ => .refl _

end Definitions

/-! ## Conversions -/

/-- A conversion with an agreeing glyph order is the one without, unless that lacks an order. -/
theorem sameUnless_convert
    {statements : List Statement}
    {order : GlyphOrder}
    (agrees : ∀ statement ∈ statements, order.AgreesWith statement)
    (options : Options) :
    unlessMissingOrder.SameRun (convert statements none options)
      (convert statements (some order) options) := by
  refine Outcome.SameUnless.bind_map (Definitions.sameUnless_collect agrees)
    fun definitions collected => ?_
  have result : Definitions.collect statements none =
      ⟨(Definitions.collect statements none).log, .ok definitions⟩ := by
    rw [← collected]
  have lacks : definitions.glyphOrder = none := Definitions.glyphOrder_of_collect result
  exact (Compilation.sameUnless_ofStatements lacks order statements).bind fun _ => .refl _

/--
Where a project can be converted without a glyph order, a glyph order that calls each defined
glyph by its own name changes neither the feature file nor the notices.
-/
theorem convert_of_agreeing_order
    {statements : List Statement}
    {options : Options}
    {order : GlyphOrder}
    {log : List Notice}
    {document : Feature.Document}
    (converted : convert statements none options = ⟨log, .ok document⟩)
    (agrees : ∀ glyph, .glyph glyph ∈ statements → order.get? glyph.id = some glyph.name) :
    convert statements (some order) options = ⟨log, .ok document⟩ := by
  have each : ∀ statement ∈ statements, order.AgreesWith statement :=
    fun _ present glyph same => agrees glyph (same ▸ present)
  rw [(sameUnless_convert each options).eq_of_notStopped (by rw [converted]; exact notStopped_ok _),
    converted]

/-- Two bases that are kerned, and a mark that is attached to the first. -/
def kernedBases : List Statement :=
  [.glyph ⟨"a", 1, [0x61], some .base, none, ⟨1, 1⟩⟩,
    .glyph ⟨"V", 2, [0x56], some .base, none, ⟨1, 1⟩⟩,
    .glyph ⟨"acute", 3, [], some .mark, none, ⟨1, 1⟩⟩,
    .group ⟨"bases", [.glyph "a", .glyph "V"], ⟨1, 1⟩⟩,
    Compilation.kerning "kern" [("a", "V"), ("V", "a")]] ++ markedBase "top" ++
    [attachingIn [] "marks" "acute"]

/-- The names of the font for which the bases are made. -/
def kernedBasesOrder : GlyphOrder :=
  ⟨#[".notdef", "a", "V", "acute"]⟩

theorem convert_of_agreeing_order_kernedBases :
    ∃ log document, convert kernedBases none {} = ⟨log, .ok document⟩
      ∧ (∀ glyph, .glyph glyph ∈ kernedBases →
          kernedBasesOrder.get? glyph.id = some glyph.name)
      ∧ document.lookups.length = 2
      ∧ convert kernedBases (some kernedBasesOrder) {} = ⟨log, .ok document⟩ := by
  have lookups : (convert kernedBases none {}).result.toOption.map (·.lookups.length) = some 2 := by
    decide +kernel
  obtain ⟨log, document, converted⟩ : ∃ log document,
      convert kernedBases none {} = ⟨log, .ok document⟩ :=
    Outcome.exists_of_isOk (by decide +kernel)
  simp only [converted, Except.toOption, Option.map_some, Option.some.injEq] at lookups
  have agrees : ∀ glyph, .glyph glyph ∈ kernedBases →
      kernedBasesOrder.get? glyph.id = some glyph.name := by
    have each : ∀ glyph ∈ Definitions.definedGlyphs kernedBases,
        kernedBasesOrder.get? glyph.id = some glyph.name := by
      decide +kernel
    exact fun glyph present => each glyph (Definitions.mem_definedGlyphs_iff.mpr present)
  exact ⟨log, document, converted, agrees, lookups, convert_of_agreeing_order converted agrees⟩

end GlyphLayout
