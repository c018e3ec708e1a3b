import GlyphLayout.Proofs.LanguageSystems
import GlyphLayout.Proofs.MarkClasses

/-!
# Rules of attachments

An attachment is translated exactly if every mark has an anchor for its class, and every base has
an anchor for each class that some mark belongs to.  Each base then gets one rule, with a slot for
each of its components, and a slot has the points of that component for the classes in order.
-/

namespace GlyphLayout

open Feature (Anchor Attachment Rule)
open Source (Coverage Location)

/-! ## First occurrences -/

section FirstOccurrences

variable {α : Type} [DecidableEq α]

/-- The elements of a list in the order in which they first occur in it, each once. -/
structure IsFirstOccurrences (items distinct : List α) : Prop where
  mem_iff : ∀ item, item ∈ distinct ↔ item ∈ items
  ascending : distinct.Pairwise fun first second => items.idxOf first < items.idxOf second

theorem isFirstOccurrences_eraseDups (items : List α) :
    IsFirstOccurrences items items.eraseDups := by
  refine ⟨fun _ => List.mem_eraseDups, ?_⟩
  induction items using List.reverseRecOn with
  | nil => exact .nil
  | append_singleton items last ih =>
      -- What stood in the list before keeps its index when one more element comes last.
      have kept : items.eraseDups.Pairwise fun first second =>
          (items ++ [last]).idxOf first < (items ++ [last]).idxOf second := by
        refine ih.imp_of_mem fun first second below => ?_
        rwa [List.idxOf_append_of_mem (List.mem_eraseDups.mp first),
          List.idxOf_append_of_mem (List.mem_eraseDups.mp second)]
      rw [eraseDups_concat]
      split
      · exact kept
      · rename_i fresh
        refine List.pairwise_append.mpr ⟨kept, List.pairwise_singleton .., ?_⟩
        intro item inside other same
        rw [List.mem_singleton.mp same, List.idxOf_append_of_notMem fresh,
          List.idxOf_append_of_mem (List.mem_eraseDups.mp inside)]
        exact Nat.lt_add_right _ (List.idxOf_lt_length_of_mem (List.mem_eraseDups.mp inside))

end FirstOccurrences

/-! ## Points of a glyph -/

/-- Looking a component up is going through the points for the first that stands there. -/
theorem SortedMap.get?_ofNat
    {ν : Type}
    {points : SortedMap UInt16 ν}
    {component : Nat}
    (fits : component < UInt16.size) :
    points.get? (UInt16.ofNat component) =
      (points.entries.find? (·.1.toNat = component)).map Prod.snd := by
  unfold get?
  induction points.entries with
  | nil => rfl
  | cons entry rest ih =>
      have same : entry.1 = UInt16.ofNat component ↔ entry.1.toNat = component := by
        rw [← UInt16.toNat_inj, UInt16.toNat_ofNat_of_lt' fits]
      by_cases here : entry.1.toNat = component
      · rw [Entries.find?, if_pos (same.mpr here), List.find?_cons_of_pos (by simpa using here)]
        rfl
      · rw [Entries.find?, if_neg (same.not.mpr here), ih,
          List.find?_cons_of_neg (by simpa using here)]

namespace Definitions

variable (definitions : Definitions)

/-- The point of an anchor of a glyph at a component, which counts from one. -/
def pointAt? (glyph name : String) (component : Nat) : Option Anchor :=
  (definitions.anchor? glyph name).bind fun points =>
    (points.entries.find? (·.1.toNat = component)).map Prod.snd

/-! ## Attachments and their rules -/

/-- A glyph has an anchor for a mark class, which is known. -/
def CanCarry (glyph markClass : String) : Prop :=
  (definitions.anchor? glyph markClass).isSome ∧ (definitions.markClassName? markClass).isSome

/-- An attachment, for bases that have been expanded, has all anchors that it needs. -/
structure CanAttach (location : Location) (bases : List String)
    (marks : List (Coverage × String)) : Prop where
  /-- Every listed mark has a place in its class, at any component. -/
  placed : ∀ coverage markClass glyphs, (coverage, markClass) ∈ marks →
    definitions.expand location coverage = .ok glyphs → ∀ glyph ∈ glyphs,
      ∃ entry ∈ definitions.markAnchors.entries, entry.1.member = ⟨glyph, markClass⟩
  carried : ∀ glyph ∈ bases, ∀ markClass ∈ marks.map Prod.snd,
    definitions.CanCarry glyph markClass

/-- A slot of a rule has the points of a component for the mark classes, one after the other. -/
def AttachesAt (glyph : String) (classes : List String) (component : Nat)
    (slot : List Attachment) : Prop :=
  List.Forall₂ (fun markClass attachment =>
    definitions.markClassName? markClass = some attachment.markClass
      ∧ attachment.anchor = definitions.pointAt? glyph markClass component) classes slot

/-- The rule that attaches marks of some classes to a glyph. -/
inductive IsAttachmentRule (classes : List String) (glyph : String) : Rule → Prop
  | markToMark
      {slot : List Attachment}
      (mark : definitions.isMark glyph)
      (attached : definitions.AttachesAt glyph classes 1 slot) :
      IsAttachmentRule classes glyph
        (.markToMark (.glyph (definitions.outputName glyph)) slot)
  | markToLigature
      {count : UInt16} {slots : List (List Attachment)}
      (noMark : definitions.isMark glyph = false)
      (ligature : definitions.ligatureComponents? glyph = some count)
      (size : slots.length = count.toNat)
      (attached : ∀ index slot, slots[index]? = some slot →
        definitions.AttachesAt glyph classes (index + 1) slot) :
      IsAttachmentRule classes glyph
        (.markToLigature (.glyph (definitions.outputName glyph)) slots)
  | markToBase
      {slot : List Attachment}
      (noMark : definitions.isMark glyph = false)
      (noLigature : definitions.ligatureComponents? glyph = none)
      (attached : definitions.AttachesAt glyph classes 1 slot) :
      IsAttachmentRule classes glyph
        (.markToBase (.glyph (definitions.outputName glyph)) slot)

variable {definitions} {location : Location} {bases : Coverage} {glyph markClass : String}
  {classes : List String} {marks : List (Coverage × String)}

/-! ## One base -/

theorem anchorsForClass_eq_ok_iff
    {points : SortedMap UInt16 Anchor}
    {className : String} :
    definitions.anchorsForClass location glyph markClass = .ok (points, className) ↔
      definitions.anchor? glyph markClass = some points
        ∧ definitions.markClassName? markClass = some className := by
  unfold anchorsForClass
  rcases definitions.anchor? glyph markClass with _ | found
  · simp
  · rcases definitions.markClassName? markClass with _ | name <;> simp

theorem exists_anchorsForClass_iff :
    (∃ anchors, definitions.anchorsForClass location glyph markClass = .ok anchors) ↔
      definitions.CanCarry glyph markClass := by
  simp only [Prod.exists, anchorsForClass_eq_ok_iff, CanCarry, Option.isSome_iff_exists,
    exists_and_left, exists_and_right]

/-- What is attached at a component are the points that stand there. -/
theorem attachesAt_attachmentsAt
    {anchors : List (SortedMap UInt16 Anchor × String)}
    {index : Nat}
    (found : classes.mapM (definitions.anchorsForClass location glyph) = .ok anchors)
    (fits : index + 1 < UInt16.size) :
    definitions.AttachesAt glyph classes (index + 1) (attachmentsAt anchors index) := by
  refine List.forall₂_map_right_iff.mpr ((except_mapM_eq_ok_iff.mp found).imp ?_)
  rintro markClass ⟨points, className⟩ anchored
  obtain ⟨given, named⟩ := anchorsForClass_eq_ok_iff.mp anchored
  refine ⟨named, ?_⟩
  rw [pointAt?, given]
  exact SortedMap.get?_ofNat fits

/-- A base gets a rule exactly if it has an anchor for each class. -/
theorem exists_attachmentRule_iff :
    (∃ rule, definitions.attachmentRule location classes glyph = .ok rule) ↔
      ∀ markClass ∈ classes, definitions.CanCarry glyph markClass := by
  have carries (markClass : String) : definitions.CanCarry glyph markClass ↔
      ∃ anchors, definitions.anchorsForClass location glyph markClass = .ok anchors :=
    exists_anchorsForClass_iff.symm
  simp only [carries]
  rw [← exists_except_mapM_iff]
  unfold attachmentRule
  simp only [except_bind_eq_ok_iff]
  constructor
  · rintro ⟨_, anchors, found, _⟩
    exact ⟨anchors, found⟩
  · rintro ⟨anchors, found⟩
    split
    · exact ⟨_, anchors, found, rfl⟩
    · split <;> exact ⟨_, anchors, found, rfl⟩

/-- The rule for a base has the form that its kind asks for. -/
theorem isAttachmentRule_of_attachmentRule
    {rule : Rule}
    (written : definitions.attachmentRule location classes glyph = .ok rule) :
    definitions.IsAttachmentRule classes glyph rule := by
  obtain ⟨anchors, found, shape⟩ := exists_of_attachmentRule written
  have first : definitions.AttachesAt glyph classes 1 (attachmentsAt anchors 0) :=
    attachesAt_attachmentsAt found (by decide)
  rcases shape with ⟨mark, rfl⟩ | ⟨noMark, count, ligature, rfl⟩ | ⟨noMark, noLigature, rfl⟩
  · exact .markToMark mark first
  · refine .markToLigature noMark ligature (by simp) fun index slot taken => ?_
    rw [List.getElem?_map, Option.map_eq_some_iff] at taken
    obtain ⟨_, listed, rfl⟩ := taken
    obtain ⟨inside, same⟩ := List.getElem?_eq_some_iff.mp listed
    rw [List.length_range] at inside
    rw [List.getElem_range] at same
    subst same
    -- An index below a number of components is not the greatest number that fits.
    have bound := count.toNat_lt_size
    exact attachesAt_attachmentsAt found (by omega)
  · exact .markToBase noMark noLigature first

/-! ## All bases -/

/-- The marks of a coverage are taken exactly if each has an anchor for the class. -/
theorem exists_membersOf_iff
    {coverage : Coverage}
    {glyphs : List String}
    (expanded : definitions.expand location coverage = .ok glyphs) :
    (∃ members, definitions.membersOf location (coverage, markClass) = .ok members) ↔
      ∀ glyph ∈ glyphs, definitions.hasMarkAnchor ⟨glyph, markClass⟩ := by
  unfold membersOf
  rw [expanded]
  refine exists_except_mapM_iff.trans (forall₂_congr fun glyph _ => ?_)
  split <;> rename_i anchored <;> simp [anchored]

/-- The marks of all coverages are taken exactly if the marks of each are. -/
theorem exists_attachedMarks_iff :
    (∃ members, definitions.attachedMarks location marks = .ok members) ↔
      ∀ entry ∈ marks, ∃ members, definitions.membersOf location entry = .ok members := by
  unfold attachedMarks
  rw [← exists_except_mapM_iff]
  simp only [except_bind_eq_ok_iff]
  constructor
  · rintro ⟨_, parts, traversed, _⟩
    exact ⟨parts, traversed⟩
  · rintro ⟨parts, traversed⟩
    exact ⟨_, parts, traversed, rfl⟩

/-- The bases get their rules exactly if they all have an anchor for each class. -/
theorem exists_attachmentRules_iff
    {glyphs : List String}
    (expanded : definitions.expand location bases = .ok glyphs) :
    (∃ rules, definitions.attachmentRules location bases classes = .ok rules) ↔
      ∀ glyph ∈ glyphs, ∀ markClass ∈ classes, definitions.CanCarry glyph markClass := by
  unfold attachmentRules
  rw [expanded]
  rcases classes with _ | ⟨first, rest⟩
  · simp
  · refine exists_except_mapM_iff.trans ?_
    simp only [exists_attachmentRule_iff, List.mem_eraseDups]

/-- Each base gets one rule, where it first occurs, unless there is no class to attach. -/
theorem forall₂_attachmentRules
    {glyphs : List String}
    {rules : List Rule}
    (expanded : definitions.expand location bases = .ok glyphs)
    (written : definitions.attachmentRules location bases classes = .ok rules) :
    List.Forall₂ (definitions.IsAttachmentRule classes.eraseDups)
      (if classes = [] then [] else glyphs).eraseDups rules := by
  unfold attachmentRules at written
  rw [expanded] at written
  rcases classes with _ | ⟨first, rest⟩
  · cases written
    exact .nil
  · exact (except_mapM_eq_ok_iff.mp written).imp fun _ _ => isAttachmentRule_of_attachmentRule

theorem exists_plainRules_attach_iff :
    (∃ plain, definitions.plainRules location (.attach bases marks) = .ok plain) ↔
      (∃ members, definitions.attachedMarks location marks = .ok members)
        ∧ ∃ rules,
          definitions.attachmentRules location bases (marks.map Prod.snd) = .ok rules := by
  unfold plainRules
  simp only [except_bind_eq_ok_iff]
  constructor
  · rintro ⟨_, members, attached, rules, written, _⟩
    exact ⟨⟨members, attached⟩, rules, written⟩
  · rintro ⟨⟨members, attached⟩, rules, written⟩
    exact ⟨_, members, attached, rules, written, rfl⟩

/--
An attachment whose coverages expand is translated exactly if its marks and bases have their
anchors.  The distinct bases then get one rule each, for the distinct classes, and no component
is too great to be looked up.
-/
theorem plainRules_attach_exact
    {glyphs : List String}
    (expanded : definitions.expand location bases = .ok glyphs)
    (marksExpanded : ∀ entry ∈ marks,
      ∃ attached, definitions.expand location entry.1 = .ok attached) :
    ((∃ plain, definitions.plainRules location (.attach bases marks) = .ok plain) ↔
        definitions.CanAttach location glyphs marks)
      ∧ (∀ plain, definitions.plainRules location (.attach bases marks) = .ok plain →
          ∃ classes served, IsFirstOccurrences (marks.map Prod.snd) classes
            ∧ IsFirstOccurrences (if marks = [] then [] else glyphs) served
            ∧ List.Forall₂ (definitions.IsAttachmentRule classes) served plain.rules)
      ∧ ∀ count : UInt16, ∀ index < count.toNat,
          (UInt16.ofNat (index + 1)).toNat = index + 1 := by
  refine ⟨?_, ?_, ?_⟩
  · rw [exists_plainRules_attach_iff, exists_attachedMarks_iff,
      exists_attachmentRules_iff expanded]
    constructor
    · rintro ⟨each, carried⟩
      refine ⟨fun coverage markClass attached listed expanded glyph held => ?_, carried⟩
      exact hasMarkAnchor_iff.mp
        ((exists_membersOf_iff expanded).mp (each _ listed) glyph held)
    · intro can
      refine ⟨fun entry listed => ?_, can.carried⟩
      obtain ⟨attached, expanded⟩ := marksExpanded entry listed
      exact (exists_membersOf_iff expanded).mpr fun glyph held =>
        hasMarkAnchor_iff.mpr (can.placed _ _ _ listed expanded glyph held)
  · intro plain resolved
    obtain ⟨_, _, result⟩ := except_bind_eq_ok_iff.mp resolved
    obtain ⟨rules, written, result⟩ := except_bind_eq_ok_iff.mp result
    cases result
    refine ⟨_, _, isFirstOccurrences_eraseDups _, isFirstOccurrences_eraseDups _, ?_⟩
    simpa only [List.map_eq_nil_iff] using forall₂_attachmentRules expanded written
  · intro count index below
    have bound := count.toNat_lt_size
    exact UInt16.toNat_ofNat_of_lt' (by omega)

/-- An anchor of a glyph at one of its components. -/
def anchorOn (name glyph : String) (component : UInt16) (x : Int16) : Source.Statement :=
  .anchor {
    name
    glyphId := 1
    glyph
    component
    locked := false
    placement := { dx := some x }
    location := ⟨1, 1⟩ }

/-- A mark, a ligature of two components and a plain base, all with an anchor of one name. -/
def basesOfEachKind : List Source.Statement :=
  [.glyph ⟨"acute", 1, [], some .mark, none, ⟨1, 1⟩⟩,
    .glyph ⟨"f_f", 2, [], some .ligature, some 2, ⟨1, 1⟩⟩,
    anchorOn "MARK_top" "acute" 1 10, anchorOn "top" "acute" 1 20,
    anchorOn "top" "f_f" 2 30, anchorOn "top" "a" 1 40]

theorem plainRules_attach_exact_eachKind :
    ∃ definitions plain, (collect basesOfEachKind none).result = .ok definitions
      ∧ definitions.plainRules ⟨1, 1⟩ (.attach
          [.glyph "f_f", .glyph "a", .glyph "f_f", .glyph "acute"]
          [([.glyph "acute"], "top"), ([], "top")]) = .ok plain
      ∧ plain.rules.map Rule.text =
          ["pos ligature f_f <anchor NULL>\n        ligComponent <anchor 30 0> mark @top;",
            "pos base a <anchor 40 0> mark @top;", "pos mark acute <anchor 20 0> mark @top;"]
      ∧ definitions.CanAttach ⟨1, 1⟩ ["f_f", "a", "f_f", "acute"]
          [([.glyph "acute"], "top"), ([], "top")]
      ∧ ∃ classes served, IsFirstOccurrences ["top", "top"] classes
          ∧ IsFirstOccurrences ["f_f", "a", "f_f", "acute"] served
          ∧ List.Forall₂ (definitions.IsAttachmentRule classes) served plain.rules := by
  have texts : (collect basesOfEachKind none).result.toOption.map (fun definitions =>
      (definitions.plainRules ⟨1, 1⟩ (.attach
        [.glyph "f_f", .glyph "a", .glyph "f_f", .glyph "acute"]
        [([.glyph "acute"], "top"), ([], "top")])).toOption.map
          fun plain => plain.rules.map Rule.text) =
      some (some
        ["pos ligature f_f <anchor NULL>\n        ligComponent <anchor 30 0> mark @top;",
          "pos base a <anchor 40 0> mark @top;", "pos mark acute <anchor 20 0> mark @top;"]) := by
    decide +kernel
  obtain ⟨definitions, collected, texts⟩ := Option.map_eq_some_iff.mp texts
  obtain ⟨plain, resolved, texts⟩ := Option.map_eq_some_iff.mp texts
  have resolved := except_eq_ok_of_toOption resolved
  have expanded : definitions.expand ⟨1, 1⟩
      [.glyph "f_f", .glyph "a", .glyph "f_f", .glyph "acute"] =
        .ok ["f_f", "a", "f_f", "acute"] := rfl
  have marksExpanded : ∀ entry ∈ [([.glyph "acute"], "top"), ([], "top")],
      ∃ attached, definitions.expand ⟨1, 1⟩ entry.1 = .ok attached := by
    rintro entry (_ | ⟨_, _ | ⟨_, ⟨⟩⟩⟩)
    · exact ⟨["acute"], rfl⟩
    · exact ⟨[], rfl⟩
  obtain ⟨can, exact, _⟩ := plainRules_attach_exact expanded marksExpanded
  exact ⟨definitions, plain, except_eq_ok_of_toOption collected, resolved, texts,
    can.mp ⟨plain, resolved⟩, exact plain resolved⟩

end Definitions
end GlyphLayout
