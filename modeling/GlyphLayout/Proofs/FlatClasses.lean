import GlyphLayout.Proofs.Collecting
import GlyphLayout.Proofs.Leaves
import GlyphLayout.Proofs.Operands
import GlyphLayout.Proofs.Provenance

/-!
# Flat classes

A class that is written out in place has glyphs and named classes as its members, and never
another class that is written out in place.  A coverage may nest lists to any depth, yet whatever
it is resolved into keeps to this, and so does all that is made of it: the members of groups and
the references of rules.
-/

namespace GlyphLayout

open Feature (Glyphs Rule)
open Source (Coverage CoverageItem Location Statement)

/-! ## References -/

namespace Feature
namespace Glyphs

/-- The reference is a class written out in place. -/
def isInline : Glyphs → Bool
  | inline _ => true
  | _ => false

/-- No class written out in place is a member of another one. -/
def IsFlat : Glyphs → Prop
  | inline members => ∀ member ∈ members, member.isInline = false
  | _ => True

theorem isFlat_iff_parts {item : Glyphs} :
    item.IsFlat ↔ ∀ part ∈ item.parts, part.isInline = false := by
  cases item <;> simp [IsFlat, parts, isInline]

variable {items : List Glyphs} (flat : ∀ item ∈ items, item.IsFlat)

include flat

/-- The parts of flat references are no classes written out in place. -/
theorem isInline_of_mem_flatMap_parts : ∀ part ∈ items.flatMap parts, part.isInline = false := by
  intro part member
  obtain ⟨item, listed, inside⟩ := List.mem_flatMap.mp member
  exact isFlat_iff_parts.mp (flat item listed) part inside

/-- A class that takes in flat references is flat. -/
theorem isFlat_flatten : (flatten items).IsFlat :=
  isInline_of_mem_flatMap_parts flat

/-- One reference for flat references is flat. -/
theorem isFlat_collapse : (collapse items).IsFlat := by
  match items with
  | [] => exact isFlat_flatten flat
  | [item] => exact flat item (List.mem_singleton_self item)
  | first :: second :: rest => exact isFlat_flatten flat

end Glyphs
end Feature

/-! ## Coverages -/

namespace Definitions

variable {definitions : Definitions} {location : Location}

mutual

/-- The reference for an item is flat, however deep the item is nested. -/
theorem isFlat_resolveItem
    {item : CoverageItem}
    {reference : Glyphs}
    (resolved : definitions.resolveItem location item = .ok reference) :
    reference.IsFlat := by
  match item with
  | .glyph name =>
      cases resolved
      trivial
  | .group name =>
      obtain ⟨group, _, result⟩ := except_bind_eq_ok_iff.mp resolved
      cases result
      trivial
  | .enumeration items =>
      obtain ⟨inner, each, result⟩ := except_bind_eq_ok_iff.mp resolved
      cases result
      exact Glyphs.isFlat_flatten (isFlat_resolve each)
  | .range first last =>
      obtain ⟨_, _, result⟩ := except_bind_eq_ok_iff.mp resolved
      obtain ⟨names, _, result⟩ := except_bind_eq_ok_iff.mp result
      cases result
      exact List.forall_mem_map.mpr fun _ _ => rfl

/-- The references for a coverage are flat. -/
theorem isFlat_resolve
    {coverage : Coverage}
    {references : List Glyphs}
    (resolved : definitions.resolve location coverage = .ok references) :
    ∀ reference ∈ references, reference.IsFlat := by
  match coverage with
  | [] =>
      cases resolved
      simp
  | item :: rest =>
      obtain ⟨first, head, result⟩ := except_bind_eq_ok_iff.mp resolved
      obtain ⟨others, tail, result⟩ := except_bind_eq_ok_iff.mp result
      cases result
      exact List.forall_mem_cons.mpr ⟨isFlat_resolveItem head, isFlat_resolve tail⟩

end

/-- Every operand of a rule is flat. -/
theorem IsOperand.isFlat
    {item : Glyphs}
    (operand : definitions.IsOperand item) :
    item.IsFlat := by
  cases operand with
  | item resolved present => exact isFlat_resolve resolved item present
  | collapsed resolved =>
      obtain ⟨references, each, result⟩ := except_bind_eq_ok_iff.mp resolved
      cases result
      exact Glyphs.isFlat_collapse (isFlat_resolve each)
  | gathered resolved =>
      refine Glyphs.isFlat_flatten fun item member => ?_
      obtain ⟨_, _, _, found, inside⟩ := exists_of_mem_resolveSequence resolved member
      exact isFlat_resolve found item inside
  | glyph name => trivial

/-! ## Groups -/

/-- No member of a group is a class written out in place. -/
def GroupsFlat (definitions : Definitions) : Prop :=
  ∀ group ∈ definitions.groups.values, ∀ member ∈ group.members, member.isInline = false

theorem GroupsFlat.step
    {next : Definitions}
    {statement : Statement}
    (flat : definitions.GroupsFlat)
    (step : AddStep definitions statement next) :
    next.GroupsFlat := by
  cases step with
  | group resolved expanded =>
      intro group present
      rcases OrderedMap.mem_values_insert present with rfl | before
      · exact Glyphs.isInline_of_mem_flatMap_parts (isFlat_resolve resolved)
      · exact flat group before
  | glyph | script | markAnchor | baseAnchor | setting | lookup => exact flat

theorem groupsFlat_of_collect
    {statements : List Statement}
    {glyphOrder : Option GlyphOrder}
    {log : List Notice}
    (collected : collect statements glyphOrder = ⟨log, .ok definitions⟩) :
    definitions.GroupsFlat := by
  let invariant (_ : List Statement) (definitions : Definitions) : Prop := definitions.GroupsFlat
  have start : invariant [] { glyphOrder } := nofun
  exact collect_induction_add start
    (fun _ _ _ _ _ flat added => GroupsFlat.step flat (addStep_of_add added)) collected

end Definitions

/-! ## Rules -/

namespace Compilation

/-- Whatever is compiled, the operands of its rules are flat. -/
theorem isFlat_of_ofStatements
    {definitions : Definitions}
    {options : Options}
    {statements : List Statement}
    {log : List Notice}
    {state : Compilation}
    (compiled : ofStatements definitions options statements = ⟨log, .ok state⟩) :
    ∀ lookup ∈ state.lookups.values, ∀ rule ∈ lookup.rules, ∀ operand ∈ rule.operands,
      operand.IsFlat := by
  obtain ⟨translations, related, entered⟩ := entered_of_ofStatements compiled
  intro lookup present rule member operand listed
  obtain ⟨draft, inside, rfl⟩ := entered.exists_draft present
  obtain ⟨rule, written, rfl⟩ := List.mem_map.mp member
  rw [Rule.operands_relabel] at listed
  obtain ⟨_, _, _, translated, held⟩ := exists_of_mem_flatten_of_related related inside
  exact ((translated.origin held written).isOperand operand listed).isFlat

end Compilation

/-! ## Leaves and flatness -/

/-- Each item of a coverage is resolved into one reference, which is flat and has the leaves of the
item, in order and with repetitions.  All that is made of such references is flat: classes and
single references for several of them, the members of groups, and the operands of rules. -/
theorem resolve_faithful_and_flat :
    (∀ (definitions : Definitions) (location : Location) (coverage : Coverage)
        (references : List Glyphs),
        definitions.resolve location coverage = .ok references →
          (Glyphs.leavesOf references).map some = definitions.entries.items coverage
            ∧ List.Forall₂ (fun item reference =>
                reference.leaves.map some = definitions.entries.item item ∧ reference.IsFlat)
              coverage references)
      ∧ (∀ references : List Glyphs, (∀ reference ∈ references, reference.IsFlat) →
          (Glyphs.flatten references).IsFlat ∧ (Glyphs.collapse references).IsFlat)
      ∧ (∀ (statements : List Statement) (glyphOrder : Option GlyphOrder) (log : List Notice)
          (definitions : Definitions),
          Definitions.collect statements glyphOrder = ⟨log, .ok definitions⟩ →
            ∀ group ∈ definitions.groups.values, ∀ member ∈ group.members,
              member.isInline = false)
      ∧ ∀ (definitions : Definitions) (options : Options) (statements : List Statement)
          (log : List Notice) (state : Compilation),
          Compilation.ofStatements definitions options statements = ⟨log, .ok state⟩ →
            ∀ lookup ∈ state.lookups.values, ∀ rule ∈ lookup.rules,
              ∀ operand ∈ rule.operands, operand.IsFlat := by
  refine ⟨fun definitions location coverage references resolved => ?_, fun references flat => ?_,
    fun _ _ _ _ collected => Definitions.groupsFlat_of_collect collected,
    fun _ _ _ _ _ compiled => Compilation.isFlat_of_ofStatements compiled⟩
  · refine ⟨Definitions.some_leavesOf_resolve resolved, ?_⟩
    exact (Definitions.forall₂_of_resolve resolved).imp fun item reference each =>
      ⟨Definitions.some_leaves_resolveItem each, Definitions.isFlat_resolveItem each⟩
  · exact ⟨Glyphs.isFlat_flatten flat, Glyphs.isFlat_collapse flat⟩

/-- A glyph, and a list in which a range and another list stand. -/
def nestedLists : Coverage :=
  [.glyph "a", .enumeration [.range "a" "c", .enumeration [.glyph "a", .glyph "d"]]]

/-- A group with these members, and a lookup that moves them. -/
def nestedListsProject : List Statement :=
  [.glyph ⟨"a", 1, [], none, none, ⟨1, 1⟩⟩,
    .glyph ⟨"c", 3, [], none, none, ⟨1, 1⟩⟩,
    .group ⟨"letters", nestedLists, ⟨1, 1⟩⟩,
    .lookup {
      name := "raise"
      processBase := true
      marks := .all
      direction := some .leftToRight
      reversal := false
      comments := none
      contexts := [⟨.within, [nestedLists], []⟩]
      payload := .positioning (.singles [(nestedLists, { dy := some 10 })])
      location := ⟨1, 1⟩ }]

theorem resolve_faithful_and_flat_nestedLists :
    ∃ log definitions later state,
      Definitions.collect nestedListsProject (some ⟨#[".notdef", "A", "B", "C"]⟩) =
          ⟨log, .ok definitions⟩
        ∧ definitions.resolve ⟨1, 1⟩ nestedLists =
            .ok [.glyph "A", .inline [.glyph "A", .glyph "B", .glyph "C", .glyph "A", .glyph "d"]]
        ∧ ([.glyph "A", .glyph "A", .glyph "B", .glyph "C", .glyph "A", .glyph "d"] :
            List Glyphs).map some = definitions.entries.items nestedLists
        ∧ (Glyphs.collapse [.glyph "A", .inline [.glyph "A", .glyph "B"]]).IsFlat
        ∧ definitions.groups.size = 1
        ∧ (∀ group ∈ definitions.groups.values, ∀ member ∈ group.members, member.isInline = false)
        ∧ Compilation.ofStatements definitions {} nestedListsProject = ⟨later, .ok state⟩
        ∧ state.lookups.size = 2
        ∧ ∀ lookup ∈ state.lookups.values, ∀ rule ∈ lookup.rules, ∀ operand ∈ rule.operands,
            operand.IsFlat := by
  let collected := (Definitions.collect nestedListsProject
    (some ⟨#[".notdef", "A", "B", "C"]⟩)).result.toOption
  have resolved : collected.bind (fun definitions =>
      (definitions.resolve ⟨1, 1⟩ nestedLists).toOption) =
        some [.glyph "A", .inline [.glyph "A", .glyph "B", .glyph "C", .glyph "A", .glyph "d"]] := by
    decide +kernel
  have groups : collected.map (·.groups.size) = some 1 := by decide +kernel
  have lookups : collected.bind (fun definitions =>
      (Compilation.ofStatements definitions {} nestedListsProject).result.toOption.map
        (·.lookups.size)) = some 2 := by
    decide +kernel
  obtain ⟨log, definitions, run⟩ : ∃ log definitions,
      Definitions.collect nestedListsProject (some ⟨#[".notdef", "A", "B", "C"]⟩) =
        ⟨log, .ok definitions⟩ :=
    Outcome.exists_of_isOk (by decide +kernel)
  simp only [collected, run] at resolved groups lookups
  have references := except_eq_ok_of_toOption resolved
  obtain ⟨state, result, sized⟩ := Option.map_eq_some_iff.mp lookups
  obtain ⟨faithful, joined, ofGroups, ofRules⟩ := resolve_faithful_and_flat
  obtain ⟨leaves, _⟩ := faithful definitions _ _ _ references
  have compiled : Compilation.ofStatements definitions {} nestedListsProject = ⟨_, .ok state⟩ :=
    congrArg (Outcome.mk _) (except_eq_ok_of_toOption result)
  refine ⟨log, definitions, _, state, run, references, leaves, (joined _ ?_).2,
    Option.some.inj groups, ofGroups _ _ _ _ run, compiled, sized, ofRules _ _ _ _ _ compiled⟩
  simp [Glyphs.IsFlat, Glyphs.isInline]

end GlyphLayout
