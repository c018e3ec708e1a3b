import GlyphLayout.Proofs.Naming
import GlyphLayout.Proofs.Operands

/-!
# References to glyph classes

A rule names a class where the source names a group, on its own or inside a class written out
in place, and a lookup flag may name one as well.  Resolving looks every group up, so that all
classes that a compiled lookup names are those of groups.
-/

namespace GlyphLayout

open Feature (Flags Glyphs Rule)
open Source (Coverage CoverageItem Location LookupDefinition Positioning Substitution)

/-! ## Classes that are named -/

namespace Feature

namespace Glyphs

mutual

/-- The classes that a reference names. -/
def classNames : Glyphs → List String
  | glyph _ => []
  | named className => [className]
  | inline members => classNamesOf members

/-- The classes that some references name. -/
def classNamesOf : List Glyphs → List String
  | [] => []
  | item :: rest => item.classNames ++ classNamesOf rest

end

theorem classNamesOf_eq_flatMap (items : List Glyphs) :
    classNamesOf items = items.flatMap classNames := by
  induction items with
  | nil => rfl
  | cons item rest ih => rw [classNamesOf, ih, List.flatMap_cons]

@[simp] theorem classNamesOf_append (first second : List Glyphs) :
    classNamesOf (first ++ second) = classNamesOf first ++ classNamesOf second := by
  simp only [classNamesOf_eq_flatMap, List.flatMap_append]

@[simp] theorem classNamesOf_parts (item : Glyphs) : classNamesOf item.parts = item.classNames := by
  cases item <;> simp [parts, classNamesOf, classNames]

@[simp] theorem classNamesOf_flatMap_parts (items : List Glyphs) :
    classNamesOf (items.flatMap parts) = classNamesOf items := by
  induction items with
  | nil => rfl
  | cons item rest ih => simp [classNamesOf, ih]

/-- To flatten references keeps the classes that they name. -/
@[simp] theorem classNames_flatten (items : List Glyphs) :
    (flatten items).classNames = classNamesOf items := by
  simp [flatten, classNames]

@[simp] theorem classNames_collapse (items : List Glyphs) :
    (collapse items).classNames = classNamesOf items := by
  match items with
  | [] => simp [collapse]
  | [item] => simp [collapse, classNamesOf]
  | first :: second :: rest => simp [collapse]

@[simp] theorem classNamesOf_map_glyph (names : List String) :
    classNamesOf (names.map glyph) = [] := by
  induction names with
  | nil => rfl
  | cons name rest ih => simp [classNamesOf, classNames, ih]

end Glyphs

/-- The classes that the flags of a lookup name. -/
def Flags.classNames (flags : Flags) : List String :=
  flags.markAttachment.toList ++ flags.markFiltering.toList

namespace Rule

/-- The glyph classes that a rule names. -/
def classNames : Rule → List String
  | flags value => value.classNames
  | rule => Glyphs.classNamesOf rule.operands

/-- A rule that acts on glyphs names classes in its operands only. -/
theorem classNames_of_actsOnGlyphs {rule : Rule} (acts : rule.actsOnGlyphs) :
    rule.classNames = Glyphs.classNamesOf rule.operands := by
  cases rule with
  | flags value => cases acts
  | _ => rfl

@[simp] theorem classNames_relabel {rename : String → String} {rule : Rule} :
    (rule.relabel rename).classNames = rule.classNames := by
  cases rule with
  | chainPos context input => simp [relabel, classNames, operands, Function.comp_def]
  | _ => rfl

end Rule
end Feature

/-- The glyph classes that a compiled lookup names in its flags and its rules. -/
def CompiledLookup.classNames (lookup : CompiledLookup) : List String :=
  lookup.flags.classNames ++ lookup.rules.flatMap Rule.classNames

@[simp] theorem CompiledLookup.classNames_relabel
    {rename : String → String}
    {lookup : CompiledLookup} :
    (lookup.relabel rename).classNames = lookup.classNames := by
  simp [classNames, relabel, List.flatMap_map]

/-! ## Classes of groups -/

namespace Definitions

variable {definitions : Definitions} {location : Location}

/-- The classes of all groups, in the order of the groups. -/
def groupClasses (definitions : Definitions) : List String :=
  definitions.groups.values.map Group.className

/-- A group that is found has a class. -/
theorem className_mem_groupClasses
    {name : String}
    {group : Group}
    (found : definitions.group name location = .ok group) :
    group.className ∈ definitions.groupClasses := by
  unfold Definitions.group at found
  split at found
  · rename_i entry present
    cases found
    exact List.mem_map_of_mem (OrderedMap.mem_values_of_get? present)
  · cases found

mutual

/-- The reference for an item of a coverage names classes of groups only. -/
theorem classNames_resolveItem
    {item : CoverageItem}
    {glyphs : Glyphs}
    (resolved : definitions.resolveItem location item = .ok glyphs) :
    glyphs.classNames ⊆ definitions.groupClasses := by
  match item with
  | .glyph name =>
      cases resolved
      exact List.nil_subset _
  | .group name =>
      obtain ⟨group, found, result⟩ := except_bind_eq_ok_iff.mp resolved
      cases result
      exact List.cons_subset.mpr ⟨className_mem_groupClasses found, List.nil_subset _⟩
  | .enumeration items =>
      obtain ⟨inner, each, result⟩ := except_bind_eq_ok_iff.mp resolved
      cases result
      rw [Glyphs.classNames_flatten]
      exact classNamesOf_resolve each
  | .range first last =>
      obtain ⟨_, _, result⟩ := except_bind_eq_ok_iff.mp resolved
      obtain ⟨_, _, result⟩ := except_bind_eq_ok_iff.mp result
      cases result
      simp [Glyphs.classNames]

/-- So do the references for a coverage. -/
theorem classNamesOf_resolve
    {items : Coverage}
    {glyphs : List Glyphs}
    (resolved : definitions.resolve location items = .ok glyphs) :
    Glyphs.classNamesOf glyphs ⊆ definitions.groupClasses := by
  match items with
  | [] =>
      cases resolved
      exact List.nil_subset _
  | item :: rest =>
      obtain ⟨first, head, result⟩ := except_bind_eq_ok_iff.mp resolved
      obtain ⟨others, tail, result⟩ := except_bind_eq_ok_iff.mp result
      cases result
      exact List.append_subset.mpr ⟨classNames_resolveItem head, classNamesOf_resolve tail⟩

end

theorem classNamesOf_resolveSequence
    {coverages : List Coverage}
    {glyphs : List Glyphs}
    (resolved : definitions.resolveSequence location coverages = .ok glyphs) :
    Glyphs.classNamesOf glyphs ⊆ definitions.groupClasses := by
  obtain ⟨parts, each, result⟩ := except_bind_eq_ok_iff.mp resolved
  cases result
  have every := forall_of_except_mapM each fun _ _ part => classNamesOf_resolve part
  clear resolved each
  induction parts with
  | nil => exact List.nil_subset _
  | cons part parts ih =>
      rw [List.forall_mem_cons] at every
      rw [List.flatten_cons, Glyphs.classNamesOf_append, List.append_subset]
      exact ⟨every.1, ih every.2⟩

/-- A collapsed coverage names no classes but those of groups. -/
theorem classNames_resolveCollapsed
    {coverage : Coverage}
    {glyphs : Glyphs}
    (resolved : definitions.resolveCollapsed location coverage = .ok glyphs) :
    glyphs.classNames ⊆ definitions.groupClasses := by
  obtain ⟨parts, each, result⟩ := except_bind_eq_ok_iff.mp resolved
  cases result
  rw [Glyphs.classNames_collapse]
  exact classNamesOf_resolve each

/-- Every operand of a rule names classes of groups only. -/
theorem IsOperand.classNames
    {item : Glyphs}
    (operand : definitions.IsOperand item) :
    item.classNames ⊆ definitions.groupClasses := by
  cases operand with
  | item resolved present =>
      have all := classNamesOf_resolve resolved
      rw [Glyphs.classNamesOf_eq_flatMap] at all
      exact fun name inside => all (List.mem_flatMap.mpr ⟨item, present, inside⟩)
  | collapsed resolved => exact classNames_resolveCollapsed resolved
  | gathered resolved =>
      rw [Glyphs.classNames_flatten]
      exact classNamesOf_resolveSequence resolved
  | glyph name => exact List.nil_subset _

/-- The flags of a lookup name classes of groups only. -/
theorem classNames_lookupFlags
    {lookup : LookupDefinition}
    {flags : Flags}
    (flagged : definitions.lookupFlags lookup = .ok flags) :
    flags.classNames ⊆ definitions.groupClasses := by
  unfold lookupFlags at flagged
  dsimp only at flagged
  split at flagged
  · cases flagged
    exact List.nil_subset _
  · cases flagged
    exact List.nil_subset _
  · obtain ⟨group, found, result⟩ := except_bind_eq_ok_iff.mp flagged
    cases result
    exact List.cons_subset.mpr ⟨className_mem_groupClasses found, List.nil_subset _⟩
  · obtain ⟨group, found, result⟩ := except_bind_eq_ok_iff.mp flagged
    cases result
    exact List.cons_subset.mpr ⟨className_mem_groupClasses found, List.nil_subset _⟩

end Definitions

/-! ## Lookups -/

namespace Compilation

variable {definitions : Definitions} {options : Options} {lookup : LookupDefinition}

/-- Whatever a definition is translated to has the flags of the definition. -/
theorem Translates.lookupFlags
    {drafts : List CompiledLookup}
    {draft : CompiledLookup}
    (translated : Translates definitions options lookup drafts)
    (present : draft ∈ drafts) :
    definitions.lookupFlags lookup = .ok draft.flags := by
  cases translated with
  | substitution flagged =>
      rw [List.mem_singleton] at present
      exact present ▸ flagged
  | positioning flagged surrounded payload overlaps translated =>
      cases translated with
      | whole =>
          rw [List.mem_singleton] at present
          exact present ▸ flagged
      | cut =>
          obtain ⟨_, _, _, _, rfl⟩ := mem_pieceDrafts present
          exact flagged
      | contextual =>
          rcases mem_helped_iff.mp present with ⟨_, rfl⟩ | rfl
          · exact flagged
          · exact flagged

/-- Whatever a definition is translated to names classes of groups only. -/
theorem Translates.classNames
    {drafts : List CompiledLookup}
    (translated : Translates definitions options lookup drafts) :
    ∀ draft ∈ drafts, draft.classNames ⊆ definitions.groupClasses := by
  intro draft present
  refine List.append_subset.mpr
    ⟨Definitions.classNames_lookupFlags (translated.lookupFlags present), fun name named => ?_⟩
  obtain ⟨rule, member, inside⟩ := List.mem_flatMap.mp named
  have acts := (translated.isDraft draft present).acts rule member
  rw [Rule.classNames_of_actsOnGlyphs acts, Glyphs.classNamesOf_eq_flatMap] at inside
  obtain ⟨operand, listed, within⟩ := List.mem_flatMap.mp inside
  exact ((translated.origin present member).isOperand operand listed).classNames within

end Compilation
end GlyphLayout
