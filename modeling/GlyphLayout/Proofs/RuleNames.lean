import GlyphLayout.Proofs.ClassReferences
import GlyphLayout.Proofs.GlyphTable
import GlyphLayout.Proofs.Leaves

/-!
# Glyphs that rules name

The glyphs of a rule, around its input and in it, are those of coverages of the lookup that it
is written for, by their names in the font.  Only attachments and joins have rules for single
glyphs that their coverages hold.
-/

namespace GlyphLayout

open Feature (Glyphs Rule)
open Source (Coverage LookupDefinition Payload Positioning Reading)

/-! ## Coverages of lookups -/

namespace Source

/-- The coverages of a positioning. -/
def Positioning.coverages : Positioning → List Coverage
  | .pairs firsts seconds _ => firsts ++ seconds
  | .singles adjustments => adjustments.map Prod.fst
  | .attach bases marks => bases :: marks.map Prod.fst
  | .cursive exits entries => exits ++ entries

/-- The coverages of what a lookup does. -/
def Payload.coverages : Payload → List Coverage
  | .substitution given => given.mappings.flatMap fun mapping => [mapping.input, mapping.output]
  | .positioning given => given.coverages

/-- The coverages of a lookup, those of its contexts first. -/
def LookupDefinition.coverages (lookup : LookupDefinition) : List Coverage :=
  lookup.contexts.flatMap (fun context => context.left ++ context.right)
    ++ lookup.payload.coverages

end Source

/-- The names of the glyphs that a rule refers to, from left to right. -/
def Feature.Rule.glyphNames (rule : Rule) : List String :=
  Glyphs.glyphNamesOf rule.operands

namespace Definitions

/-- A coverage by the names of the font. -/
def fontReading (order : GlyphOrder) (statements : List Source.Statement) : Reading String :=
  .names (fontName order statements) (rangeNames order statements)

variable {order : GlyphOrder} {statements : List Source.Statement} {definitions : Definitions}
  {location : Source.Location}

namespace GlyphsNamed

variable (known : GlyphsNamed order statements definitions)

include known

theorem namesBetween_eq (first last : String) :
    definitions.namesBetween first last = rangeNames order statements first last := by
  rw [namesBetween, rangeNames, known.glyphOrder, ← known.id_eq, ← known.id_eq]
  cases definitions.glyphs.get? first <;> cases definitions.glyphs.get? last <;> rfl

/-- What coverages stand for has the names of the font. -/
theorem filterMap_references :
    definitions.references.filterMap Glyphs.glyphName? = fontReading order statements := by
  have range (first last : String) :
      (definitions.references.range first last).filterMap Glyphs.glyphName? =
        rangeNames order statements first last := by
    rw [← known.namesBetween_eq, references, List.filterMap_map]
    exact List.filterMap_some
  have group (name : String) :
      (definitions.references.group name).filterMap Glyphs.glyphName? = [] := by
    cases found : definitions.groups.get? (Text.lowercase name) <;>
      simp [references, found, Glyphs.glyphName?]
  simp only [Reading.filterMap, range, group, fontReading, Reading.names]
  simp [references, Glyphs.glyphName?, known.outputName_eq]

/-- A coverage is resolved into the names of the font. -/
theorem glyphNamesOf_resolve
    {items : Coverage}
    {glyphs : List Glyphs}
    (resolved : definitions.resolve location items = .ok glyphs) :
    Glyphs.glyphNamesOf glyphs = (fontReading order statements).items items := by
  rw [Glyphs.glyphNamesOf, leavesOf_resolve resolved, ← Reading.items_filterMap,
    known.filterMap_references]

theorem glyphNamesOf_resolveSequence
    {coverages : List Coverage}
    {glyphs : List Glyphs}
    (resolved : definitions.resolveSequence location coverages = .ok glyphs) :
    Glyphs.glyphNamesOf glyphs = coverages.flatMap (fontReading order statements).items := by
  rw [Glyphs.glyphNamesOf, leavesOf_resolveSequence resolved, List.filterMap_flatMap,
    ← known.filterMap_references]
  exact congrArg (coverages.flatMap ·)
    (funext fun _ => (Reading.items_filterMap ..).symm)

theorem glyphNamesOf_resolveCollapsed
    {coverage : Coverage}
    {glyphs : Glyphs}
    (resolved : definitions.resolveCollapsed location coverage = .ok glyphs) :
    Glyphs.glyphNamesOf [glyphs] = (fontReading order statements).items coverage := by
  rw [Glyphs.glyphNamesOf, Glyphs.leavesOf, Glyphs.leavesOf, List.append_nil,
    leaves_resolveCollapsed resolved, ← Reading.items_filterMap, known.filterMap_references]

end GlyphsNamed

/-! ## References of rules -/

/-- The glyphs of some references are, in the font, those of some coverages of a lookup. -/
def NamesCoverages (order : GlyphOrder) (statements : List Source.Statement)
    (lookup : LookupDefinition) (items : List Glyphs) : Prop :=
  ∃ coverages ⊆ lookup.coverages,
    Glyphs.glyphNamesOf items = coverages.flatMap (fontReading order statements).items

namespace NamesCoverages

variable {lookup : LookupDefinition}

theorem nil : NamesCoverages order statements lookup [] :=
  ⟨[], List.nil_subset _, rfl⟩

theorem append
    {first second : List Glyphs}
    (front : NamesCoverages order statements lookup first)
    (behind : NamesCoverages order statements lookup second) :
    NamesCoverages order statements lookup (first ++ second) := by
  obtain ⟨before, listedBefore, named⟩ := front
  obtain ⟨after, listedAfter, namedAfter⟩ := behind
  refine ⟨before ++ after, List.append_subset.mpr ⟨listedBefore, listedAfter⟩, ?_⟩
  rw [Glyphs.glyphNamesOf_append, named, namedAfter, List.flatMap_append]

theorem of_coverage
    {coverage : Coverage}
    {items : List Glyphs}
    (listed : coverage ∈ lookup.coverages)
    (named : Glyphs.glyphNamesOf items = (fontReading order statements).items coverage) :
    NamesCoverages order statements lookup items :=
  ⟨[coverage], List.cons_subset.mpr ⟨listed, List.nil_subset _⟩, by simpa using named⟩

end NamesCoverages

/--
The glyphs of a rule are those of some coverages of a lookup by their names in the font, or the
rule is for one glyph that a coverage of the lookup holds.
-/
inductive NamesGlyphsOf (order : GlyphOrder) (statements : List Source.Statement)
    (definitions : Definitions) (lookup : LookupDefinition) (rule : Rule) : Prop
  | coverages
      (named : NamesCoverages order statements lookup rule.operands)
  | held
      {coverage : Coverage} {glyphs : List String} {glyph : String}
      (listed : coverage ∈ lookup.coverages)
      (expanded : definitions.expand lookup.location coverage = .ok glyphs)
      (present : glyph ∈ glyphs)
      (named : rule.glyphNames = [fontName order statements glyph])

variable {lookup : LookupDefinition} {positioning : Positioning}

/-- Labels make no difference to the glyphs of a rule. -/
theorem NamesGlyphsOf.relabel
    {rule : Rule}
    (names : NamesGlyphsOf order statements definitions lookup rule)
    (rename : String → String) :
    NamesGlyphsOf order statements definitions lookup (rule.relabel rename) := by
  cases names with
  | coverages named => exact .coverages (by rwa [Rule.operands_relabel])
  | held listed expanded present named =>
      refine .held listed expanded present ?_
      rwa [Rule.glyphNames, Rule.operands_relabel]

theorem mem_coverages_of_payload
    {coverage : Coverage}
    (payload : lookup.payload = .positioning positioning)
    (listed : coverage ∈ positioning.coverages) :
    coverage ∈ lookup.coverages := by
  rw [LookupDefinition.coverages, payload]
  exact List.mem_append_right _ listed

/-- A pair names the glyphs of its two coverages. -/
theorem namesCoverages_pair
    {firsts seconds : List Coverage}
    {adjustments : List Source.PairAdjustment}
    {pair : Source.PairAdjustment}
    {first second : Coverage}
    {firstGlyphs secondGlyphs : Glyphs}
    (known : GlyphsNamed order statements definitions)
    (payload : lookup.payload = .positioning (.pairs firsts seconds adjustments))
    (found : pairCoverages location firsts seconds pair = .ok (first, second))
    (firstResolved : definitions.resolveCollapsed location first = .ok firstGlyphs)
    (secondResolved : definitions.resolveCollapsed location second = .ok secondGlyphs) :
    NamesCoverages order statements lookup [firstGlyphs, secondGlyphs] := by
  obtain ⟨inFirsts, inSeconds⟩ := mem_of_pairCoverages found
  have inFront : NamesCoverages order statements lookup [firstGlyphs] :=
    .of_coverage (mem_coverages_of_payload payload (List.mem_append_left _ inFirsts))
      (known.glyphNamesOf_resolveCollapsed firstResolved)
  have behind : NamesCoverages order statements lookup [secondGlyphs] :=
    .of_coverage (mem_coverages_of_payload payload (List.mem_append_right _ inSeconds))
      (known.glyphNamesOf_resolveCollapsed secondResolved)
  exact inFront.append behind

theorem PlainForm.namesGlyphsOf
    {rule : Rule}
    (known : GlyphsNamed order statements definitions)
    (payload : lookup.payload = .positioning positioning)
    (form : PlainForm definitions lookup.location positioning rule) :
    NamesGlyphsOf order statements definitions lookup rule := by
  cases form with
  | pair _ found firstResolved secondResolved =>
      exact .coverages (namesCoverages_pair known payload found firstResolved secondResolved)
  | single listed resolved =>
      refine .coverages (.of_coverage (mem_coverages_of_payload payload ?_)
        (known.glyphNamesOf_resolveCollapsed resolved))
      exact List.mem_map_of_mem (f := Prod.fst) listed
  | attachment expanded present _ shape =>
      refine .held (mem_coverages_of_payload payload (List.mem_cons_self ..)) expanded present ?_
      rw [← known.outputName_eq]
      rcases shape with rfl | ⟨_, rfl⟩ | rfl <;> rfl
  | join listed expanded present =>
      refine .held (mem_coverages_of_payload payload listed) expanded present ?_
      rw [← known.outputName_eq]
      rfl

/-! ## Contexts and inputs -/

/-- What several coverages of a lookup are resolved into, one after the other. -/
theorem GlyphsNamed.namesCoverages_resolveSequence
    {coverages : List Coverage}
    {items : List Glyphs}
    (known : GlyphsNamed order statements definitions)
    (listed : coverages ⊆ lookup.coverages)
    (resolved : definitions.resolveSequence location coverages = .ok items) :
    NamesCoverages order statements lookup items :=
  ⟨coverages, listed, known.glyphNamesOf_resolveSequence resolved⟩

theorem namesCoverages_ruleContext
    {definition : Source.ContextDefinition}
    {context : RuleContext}
    (known : GlyphsNamed order statements definitions)
    (listed : definition ∈ lookup.contexts)
    (resolved : definitions.ruleContext lookup definition = .ok context) :
    NamesCoverages order statements lookup context.context.surroundings := by
  obtain ⟨backtrack, front, result⟩ := except_bind_eq_ok_iff.mp resolved
  obtain ⟨lookahead, behind, result⟩ := except_bind_eq_ok_iff.mp result
  cases result
  have around : definition.left ++ definition.right ⊆ lookup.coverages := fun coverage inside =>
    List.mem_append_left _ (List.mem_flatMap.mpr ⟨definition, listed, inside⟩)
  rw [List.append_subset] at around
  exact (known.namesCoverages_resolveSequence around.1 front).append
    (known.namesCoverages_resolveSequence around.2 behind)

/-- The contexts of a lookup name the glyphs of its coverages. -/
theorem namesCoverages_ruleContexts
    {contexts : List RuleContext}
    (known : GlyphsNamed order statements definitions)
    (surrounded : definitions.ruleContexts lookup = .ok contexts) :
    ∀ context ∈ contexts,
      NamesCoverages order statements lookup context.context.surroundings := by
  intro context member
  rcases surroundings_eq_nil_or_exists_of_ruleContexts surrounded context member with
    bare | ⟨definition, listed, resolved⟩
  · rw [bare]
    exact .nil
  · exact namesCoverages_ruleContext known listed resolved

/-- The input sequences of a positioning name the glyphs of its coverages. -/
theorem namesCoverages_inputSequences
    {inputs : List (List Glyphs)}
    (known : GlyphsNamed order statements definitions)
    (payload : lookup.payload = .positioning positioning)
    (resolved : definitions.inputSequences lookup.location positioning = .ok inputs) :
    ∀ input ∈ inputs, NamesCoverages order statements lookup input := by
  -- A single class that takes in several coverages has the glyphs of all of them.
  have whole {coverages : List Coverage} {items : List Glyphs}
      (listed : coverages ⊆ positioning.coverages)
      (each : definitions.resolveSequence lookup.location coverages = .ok items) :
      NamesCoverages order statements lookup [.flatten items] := by
    obtain ⟨taken, inside, named⟩ := known.namesCoverages_resolveSequence
      (fun _ member => mem_coverages_of_payload payload (listed member)) each
    refine ⟨taken, inside, ?_⟩
    rw [← named, Glyphs.glyphNamesOf, Glyphs.glyphNamesOf, Glyphs.leavesOf, Glyphs.leavesOf,
      List.append_nil, Glyphs.leaves_flatten]
  cases positioning with
  | pairs firsts seconds adjustments =>
      refine forall_of_except_mapM resolved fun pair input written => ?_
      obtain ⟨⟨first, second⟩, found, result⟩ := except_bind_eq_ok_iff.mp written
      obtain ⟨_, firstResolved, result⟩ := except_bind_eq_ok_iff.mp result
      obtain ⟨_, secondResolved, result⟩ := except_bind_eq_ok_iff.mp result
      cases result
      exact namesCoverages_pair known payload found firstResolved secondResolved
  | singles adjustments =>
      obtain ⟨sequence, each, result⟩ := except_bind_eq_ok_iff.mp resolved
      cases result
      exact List.forall_mem_singleton.mpr (whole (List.Subset.refl _) each)
  | attach bases marks =>
      obtain ⟨sequence, each, result⟩ := except_bind_eq_ok_iff.mp resolved
      cases result
      exact List.forall_mem_singleton.mpr (whole (List.subset_cons_self ..) each)
  | cursive exits entries =>
      cases resolved
      simp

end Definitions

open Definitions

/-- Wherever a rule comes from, its glyphs are written by their names in the font. -/
theorem Compilation.Origin.namesGlyphsOf
    {order : GlyphOrder}
    {statements : List Source.Statement}
    {definitions : Definitions}
    {lookup : LookupDefinition}
    {rule : Rule}
    (known : GlyphsNamed order statements definitions)
    (origin : Origin definitions lookup rule) :
    NamesGlyphsOf order statements definitions lookup rule := by
  cases origin with
  | plain payload form => exact form.namesGlyphsOf known payload
  | input payload surrounded listed resolved present shape =>
      have around := namesCoverages_ruleContexts known surrounded _ listed
      have named := namesCoverages_inputSequences known payload resolved _ present
      refine .coverages ?_
      rcases shape with rfl | ⟨target, rfl⟩
      · exact around.append named
      · have same (input : List Glyphs) :
            (input.map fun item => (item, some target)).map Prod.fst = input := by
          simp [Function.comp_def]
        rw [Rule.operands, same]
        exact around.append named
  | mapping payload surrounded listed mapped resolved shape =>
      have around := namesCoverages_ruleContexts known surrounded _ listed
      have side {coverage : Coverage} {items : List Glyphs} {location : Source.Location}
          (inside : coverage ∈ lookup.payload.coverages)
          (found : definitions.resolve location coverage = .ok items) :
          NamesCoverages order statements lookup items :=
        .of_coverage (List.mem_append_right _ inside) (known.glyphNamesOf_resolve found)
      have input := side (by
        rw [payload]
        exact List.mem_flatMap.mpr ⟨_, mapped, List.mem_cons_self ..⟩) resolved
      refine .coverages ?_
      rcases shape with rfl | ⟨output, outputResolved, shaped⟩
      · exact around.append input
      · rw [operands_substitutionRule shaped]
        refine (around.append input).append (side ?_ outputResolved)
        rw [payload]
        exact List.mem_flatMap.mpr ⟨_, mapped, List.mem_cons_of_mem _ (List.mem_cons_self ..)⟩

end GlyphLayout
