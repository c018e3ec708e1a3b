import GlyphLayout.Proofs.ClassReferences
import GlyphLayout.Proofs.Collecting
import GlyphLayout.Proofs.Provenance

/-!
# Glyph classes of a feature file

A group can only name groups in front of it, and all that is compiled names groups that are
defined in the end.  So a feature file defines every glyph class that it names, and in front
of the class definitions that name it, as long as no group replaces another.
-/

namespace GlyphLayout

open Feature (Document GlyphClass Glyphs Rule)
open Source (Statement)

namespace Feature
namespace Document

/-- The names of the glyph classes of a feature file. -/
def glyphClassNames (document : Document) : List String :=
  document.glyphClasses.map GlyphClass.name

/-- A feature file defines the glyph classes that it names, once each and in order. -/
structure GlyphClassesClosed (document : Document) : Prop where
  /-- No two classes have one name. -/
  nodup : document.glyphClassNames.Nodup
  /-- The classes that the definition of a class names are defined in front of it. -/
  ordered : ∀ before definition after,
    document.glyphClasses = before ++ definition :: after →
      Glyphs.classNamesOf definition.members ⊆ before.map GlyphClass.name
  /-- The classes that rules and lookup flags name are defined. -/
  defined : ∀ block ∈ document.lookups, ∀ rule ∈ block.rules,
    rule.classNames ⊆ document.glyphClassNames

end Document
end Feature

namespace Definitions

/-- The groups stand in the order of their definitions and name only what is in front of them. -/
structure GroupsOrdered (statements : List Statement) (definitions : Definitions) : Prop where
  keys_eq : definitions.groups.keys = (groupNames statements).map Text.lowercase
  classes_eq : definitions.groupClasses =
    (groupNames statements).map definitions.classNames.identifierOf
  ordered : ∀ before group after, definitions.groups.values = before ++ group :: after →
    Glyphs.classNamesOf group.members ⊆ before.map Group.className

section Step

variable {statements : List Statement} {definitions : Definitions}

theorem groupsOrdered_nil (glyphOrder : Option GlyphOrder) :
    GroupsOrdered [] { glyphOrder } where
  keys_eq := rfl
  classes_eq := rfl
  ordered before group after split :=
    absurd split.symm (by simp [OrderedMap.values, EmptyCollection.emptyCollection,
      OrderedMap.empty])

/-- Adding identifiers changes those of no group. -/
theorem map_identifierOf_of_grows
    {next : IdentifierPool}
    (named : ClassesNamed statements definitions)
    (grows : definitions.classNames.Grows next) :
    (groupNames statements).map next.identifierOf =
      (groupNames statements).map definitions.classNames.identifierOf :=
  List.map_congr_left fun name member =>
    IdentifierPool.identifierOf_of_grows grows (named.groupsKnown name member)

/-- A group under a new key stands behind all others. -/
theorem GroupsOrdered.group
    (ordered : GroupsOrdered statements definitions)
    (named : ClassesNamed statements definitions)
    {group : Source.GroupDefinition}
    {members : List Glyphs}
    {glyphs : List String}
    (fresh : Text.lowercase group.name ∉ (groupNames statements).map Text.lowercase)
    (resolved : definitions.resolve group.location group.members = .ok members) :
    GroupsOrdered (statements ++ [.group group])
      { definitions with
        classNames := (definitions.classNames.identify group.name).2
        groups := definitions.groups.insert (Text.lowercase group.name)
          ⟨(definitions.classNames.identify group.name).1,
            members.flatMap Glyphs.parts, glyphs⟩ } := by
  have names : groupNames (statements ++ [.group group]) =
      groupNames statements ++ [group.name] := by
    simp [groupNames, groupName?]
  have entries := OrderedMap.entries_insert_of_not_mem definitions.groups
    (⟨(definitions.classNames.identify group.name).1, members.flatMap Glyphs.parts, glyphs⟩ :
      Group) (ordered.keys_eq ▸ fresh)
  have values : (definitions.groups.insert (Text.lowercase group.name)
      (⟨(definitions.classNames.identify group.name).1, members.flatMap Glyphs.parts, glyphs⟩ :
        Group)).values = definitions.groups.values ++
      [⟨(definitions.classNames.identify group.name).1, members.flatMap Glyphs.parts,
        glyphs⟩] := by
    rw [OrderedMap.values, entries, List.map_append]
    rfl
  constructor
  case keys_eq =>
    rw [OrderedMap.keys, entries, names, List.map_append, List.map_append, ← ordered.keys_eq]
    rfl
  case classes_eq =>
    have before := ordered.classes_eq
    rw [groupClasses] at before
    rw [groupClasses, values, names, List.map_append, List.map_append, before,
      map_identifierOf_of_grows named (IdentifierPool.grows_identify _ _), List.map_singleton,
      List.map_singleton, IdentifierPool.identify_fst]
  case ordered =>
    intro before other after split
    rw [values] at split
    rcases List.eq_nil_or_concat after with rfl | ⟨rest, last, rfl⟩
    · obtain ⟨rfl, same⟩ := List.append_inj' split rfl
      cases List.singleton_inj.mp same
      rw [Glyphs.classNamesOf_flatMap_parts]
      exact classNamesOf_resolve resolved
    · rw [List.concat_eq_append, ← List.cons_append, ← List.append_assoc] at split
      obtain ⟨same, _⟩ := List.append_inj' split rfl
      exact ordered.ordered before other rest same

theorem GroupsOrdered.step
    {statement : Statement}
    {next : Definitions}
    (ordered : GroupsOrdered statements definitions)
    (named : ClassesNamed statements definitions)
    (apart : ((groupNames (statements ++ [statement])).map Text.lowercase).Nodup)
    (step : ClassStep definitions statement next) :
    GroupsOrdered (statements ++ [statement]) next := by
  -- Whatever is no group leaves the groups and their identifiers as they are.
  have frame (noGroup : groupName? statement = none)
      (groups : next.groups = definitions.groups)
      (grows : definitions.classNames.Grows next.classNames) :
      GroupsOrdered (statements ++ [statement]) next := by
    have names : groupNames (statements ++ [statement]) = groupNames statements := by
      simp [groupNames, noGroup]
    constructor
    case keys_eq => rw [names, groups, ordered.keys_eq]
    case classes_eq =>
      rw [names, groupClasses, groups, map_identifierOf_of_grows named grows]
      exact ordered.classes_eq
    case ordered => rw [groups]; exact ordered.ordered
  cases step with
  | @group group members glyphs resolved expanded =>
      refine ordered.group named ?_ resolved
      simp only [groupNames, List.filterMap_append, List.map_append, groupName?,
        List.filterMap_cons, List.filterMap_nil, List.map_cons, List.map_nil] at apart
      intro present
      exact (List.nodup_append.mp apart).2.2 _ present _ (List.mem_singleton_self _) rfl
  | @markAnchor anchor markClass point ofAnchor =>
      obtain ⟨grows, _⟩ := named.nameMarkClass markClass
      refine frame rfl ?_ grows
      rw [Definitions.addMarkAnchor_eq]
  | other noGroup noMark classNames groups markClasses markAnchors =>
      exact frame noGroup groups (classNames ▸ .refl _)

end Step

/-- Groups whose names stay apart in lowercase stand in the order of their definitions. -/
theorem groupsOrdered_of_collect
    {statements : List Statement}
    {glyphOrder : Option GlyphOrder}
    {definitions : Definitions}
    {log : List Notice}
    (apart : ((groupNames statements).map Text.lowercase).Nodup)
    (collected : collect statements glyphOrder = ⟨log, .ok definitions⟩) :
    GroupsOrdered statements definitions := by
  let invariant (done : List Statement) (reached : Definitions) : Prop :=
    ClassesNamed done reached ∧
      (((groupNames done).map Text.lowercase).Nodup → GroupsOrdered done reached)
  have holds : invariant statements definitions := by
    refine collect_induction ⟨classesNamed_nil _, fun _ => groupsOrdered_nil _⟩ ?_ collected
    rintro done statement before after ⟨named, ordered⟩ step
    refine ⟨named.step step, fun apart => ?_⟩
    have earlier : ((groupNames done).map Text.lowercase).Nodup := by
      rw [groupNames, List.filterMap_append, List.map_append] at apart
      exact (List.nodup_append.mp apart).1
    exact (ordered earlier).step named apart step
  exact holds.2 apart

end Definitions

/-! ## Conversions -/

open Definitions (groupNames)

/--
A converted project whose groups have different names, in any case, defines every glyph class
that it names, once and in front of the classes that name it.
-/
theorem convert_glyphClassesClosed
    {statements : List Statement}
    {glyphOrder : Option GlyphOrder}
    {options : Options}
    {log : List Notice}
    {document : Document}
    (apart : ((groupNames statements).map Text.lowercase).Nodup)
    (converted : convert statements glyphOrder options = ⟨log, .ok document⟩) :
    document.GlyphClassesClosed := by
  obtain ⟨_, definitions, _, state, collected, _, classes_eq, _, gathers⟩ :=
    sources_of_convert converted
  have named := Definitions.classesNamed_of_collect collected
  have ordered := Definitions.groupsOrdered_of_collect apart collected
  have names : document.glyphClassNames = definitions.groupClasses := by
    rw [Document.glyphClassNames, classes_eq, Definitions.glyphClassBlocks, List.map_map]
    rfl
  constructor
  case nodup =>
    rw [names, ordered.classes_eq]
    refine (List.Nodup.of_map _ apart).map_on fun first inFirst second inSecond same => ?_
    exact named.distinct.eq_of_identifierOf_eq (named.groupsKnown first inFirst)
      (named.groupsKnown second inSecond) same
  case ordered =>
    intro before definition after split
    rw [classes_eq, Definitions.glyphClassBlocks, List.map_eq_append_iff] at split
    obtain ⟨front, rest, values, rfl, tail⟩ := split
    obtain ⟨group, behind, rfl, rfl, rfl⟩ := List.map_eq_cons_iff.mp tail
    rw [List.map_map]
    exact ordered.ordered front group behind values
  case defined =>
    intro block listed rule member
    rw [names]
    cases (gathers block listed).stems member with
    | comment text => exact List.nil_subset _
    | subtable => exact List.nil_subset _
    | flags defined translated present =>
        exact (List.append_subset.mp (translated.classNames _ present)).1
    | rule defined translated present written rename =>
        rw [Rule.classNames_relabel]
        intro name inside
        refine (List.append_subset.mp (translated.classNames _ present)).2 ?_
        exact List.mem_flatMap.mpr ⟨_, written, inside⟩

/-- A group that names another, and a lookup that names both. -/
def nestedGroups : List Statement :=
  [.group ⟨"vowels", [.glyph "a", .glyph "e"], ⟨1, 1⟩⟩,
    .group ⟨"Letters", [.group "VOWELS", .glyph "b"], ⟨1, 1⟩⟩,
    .lookup {
      name := "swash"
      processBase := true
      marks := .filterSet "letters"
      direction := some .leftToRight
      reversal := false
      comments := none
      contexts := [⟨.within, [[.group "Vowels"]], []⟩]
      payload := .substitution ⟨.single,
        [⟨[.group "letters"], [.enumeration [.group "vowels", .glyph "b"]], ⟨1, 1⟩⟩], ⟨1, 1⟩⟩
      location := ⟨1, 1⟩ }]

theorem convert_glyphClassesClosed_nestedGroups :
    ((groupNames nestedGroups).map Text.lowercase).Nodup ∧
      ∃ log document, convert nestedGroups none {} = ⟨log, .ok document⟩
        ∧ document.glyphClassNames = ["vowels", "Letters"]
        ∧ (document.lookups.flatMap fun block => block.rules.flatMap Rule.classNames) =
            ["Letters", "vowels", "Letters", "vowels"]
        ∧ document.GlyphClassesClosed := by
  have apart : ((groupNames nestedGroups).map Text.lowercase).Nodup := by decide +kernel
  have defined : (convert nestedGroups none {}).result.toOption.map Document.glyphClassNames =
      some ["vowels", "Letters"] := by
    decide +kernel
  have named : (convert nestedGroups none {}).result.toOption.map (fun document =>
      document.lookups.flatMap fun block => block.rules.flatMap Rule.classNames) =
        some ["Letters", "vowels", "Letters", "vowels"] := by
    decide +kernel
  obtain ⟨log, document, converted⟩ : ∃ log document,
      convert nestedGroups none {} = ⟨log, .ok document⟩ :=
    Outcome.exists_of_isOk (by decide +kernel)
  simp only [converted, Except.toOption, Option.map_some, Option.some.injEq] at defined named
  exact ⟨apart, log, document, converted, defined, named,
    convert_glyphClassesClosed apart converted⟩

/-! ## Glyph classes and mark classes -/

open Definitions (lastSpelling markClassNames)

namespace Feature
namespace Document

/-- The names of the mark classes of a feature file, one for each statement. -/
def markClassNames (document : Document) : List String :=
  document.markClasses.map MarkClass.className

/-- No name is that of a glyph class and of a mark class. -/
def ClassesApart (document : Document) : Prop :=
  ∀ name ∈ document.glyphClassNames, name ∉ document.markClassNames

end Document
end Feature

namespace Definitions

variable {statements : List Statement} {definitions : Definitions}

/-- The classes of groups are those of the names that no later one replaces. -/
theorem ClassesNamed.mem_groupClasses_iff
    (named : ClassesNamed statements definitions)
    {className : String} :
    className ∈ definitions.groupClasses ↔
      ∃ name, lastSpelling (Text.lowercase name) (groupNames statements) = some name
        ∧ definitions.classNames.identifierOf name = className := by
  constructor
  · intro member
    obtain ⟨group, present, rfl⟩ := List.mem_map.mp member
    obtain ⟨entry, inside, rfl⟩ := List.mem_map.mp present
    have found : definitions.groups.get? entry.1 = some entry.2 :=
      OrderedMap.get?_eq_some_iff.mpr inside
    have class_eq := named.className_eq entry.1
    rw [found, Option.map_some, eq_comm, Option.map_eq_some_iff] at class_eq
    obtain ⟨name, last, same⟩ := class_eq
    exact ⟨name, by rw [(of_lastSpelling last).2, last], same⟩
  · rintro ⟨name, last, rfl⟩
    have class_eq := named.className_eq (Text.lowercase name)
    rw [last, Option.map_some, Option.map_eq_some_iff] at class_eq
    obtain ⟨group, found, same⟩ := class_eq
    rw [← same]
    exact List.mem_map_of_mem (OrderedMap.mem_values_of_get? found)

/-- The classes of marks are those of all mark classes. -/
theorem ClassesNamed.mem_markClassBlocks_iff
    (named : ClassesNamed statements definitions)
    (state : Compilation)
    {className : String} :
    className ∈ (definitions.markClassBlocks state).map Feature.MarkClass.className ↔
      ∃ name ∈ markClassNames statements,
        definitions.classNames.identifierOf name = className := by
  have class_eq (entry : MarkPlace × Feature.Anchor)
      (present : entry ∈ definitions.markAnchors.entries) :
      (definitions.markClassName? entry.1.member.markClass).getD entry.1.member.markClass =
        definitions.classNames.identifierOf entry.1.member.markClass := by
    rw [named.markClassName_of_place present, Option.getD_some]
  rw [markClassBlocks, List.map_map, List.mem_map]
  constructor
  · rintro ⟨entry, present, rfl⟩
    exact ⟨_, (named.placed _).mpr ⟨entry, present, rfl⟩, (class_eq entry present).symm⟩
  · rintro ⟨name, member, rfl⟩
    obtain ⟨entry, present, rfl⟩ := (named.placed name).mp member
    exact ⟨entry, present, class_eq entry present⟩

end Definitions

/--
Glyph classes and mark classes of a converted project stay apart exactly when no mark class
has the name of a group, other than one that a later group replaces.
-/
theorem convert_classesApart_iff
    {statements : List Statement}
    {glyphOrder : Option GlyphOrder}
    {options : Options}
    {log : List Notice}
    {document : Document}
    (converted : convert statements glyphOrder options = ⟨log, .ok document⟩) :
    document.ClassesApart ↔ ∀ name ∈ markClassNames statements,
      lastSpelling (Text.lowercase name) (groupNames statements) ≠ some name := by
  obtain ⟨_, definitions, _, state, collected, _, classes_eq, marks_eq, _⟩ :=
    sources_of_convert converted
  have named := Definitions.classesNamed_of_collect collected
  have glyphs : document.glyphClassNames = definitions.groupClasses := by
    rw [Document.glyphClassNames, classes_eq, Definitions.glyphClassBlocks, List.map_map]
    rfl
  rw [Document.ClassesApart, glyphs, Document.markClassNames, marks_eq]
  simp only [named.mem_groupClasses_iff, named.mem_markClassBlocks_iff]
  constructor
  · intro apart name member last
    exact apart _ ⟨name, last, rfl⟩ ⟨name, member, rfl⟩
  · rintro apart _ ⟨name, last, rfl⟩ ⟨other, member, same⟩
    have known := named.groupsKnown name (Definitions.of_lastSpelling last).1
    have equal : other = name :=
      named.distinct.eq_of_identifierOf_eq (named.markClassesKnown other member) known same
    exact apart name (equal ▸ member) last

/-- A mark of one class, and a base with a place for it. -/
def markedBase (markClass : String) : List Statement :=
  [.anchor {
      name := "MARK_" ++ markClass
      glyphId := 1
      glyph := "acute"
      component := 1
      locked := false
      placement := { dx := some 10 }
      location := ⟨1, 1⟩ },
    .anchor {
      name := markClass
      glyphId := 2
      glyph := "a"
      component := 1
      locked := false
      placement := { dx := some 20 }
      location := ⟨1, 1⟩ }]

/-- A group that is replaced, and a mark class with the name of the group that is replaced. -/
def replacedGroup : List Statement :=
  [.group ⟨"top", [.glyph "a"], ⟨1, 1⟩⟩, .group ⟨"Top", [.glyph "b"], ⟨1, 1⟩⟩] ++
    markedBase "top"

theorem convert_classesApart_iff_replacedGroup :
    ∃ log document, convert replacedGroup none {} = ⟨log, .ok document⟩
      ∧ document.glyphClassNames = ["Top"]
      ∧ document.markClassNames = ["top"]
      ∧ document.ClassesApart
      ∧ ∀ name ∈ markClassNames replacedGroup,
          lastSpelling (Text.lowercase name) (groupNames replacedGroup) ≠ some name := by
  have glyphs : (convert replacedGroup none {}).result.toOption.map Document.glyphClassNames =
      some ["Top"] := by
    decide +kernel
  have marks : (convert replacedGroup none {}).result.toOption.map Document.markClassNames =
      some ["top"] := by
    decide +kernel
  obtain ⟨log, document, converted⟩ : ∃ log document,
      convert replacedGroup none {} = ⟨log, .ok document⟩ :=
    Outcome.exists_of_isOk (by decide +kernel)
  simp only [converted, Except.toOption, Option.map_some, Option.some.injEq] at glyphs marks
  have apart : document.ClassesApart := by
    rw [Document.ClassesApart, glyphs, marks]
    decide
  exact ⟨log, document, converted, glyphs, marks, apart,
    (convert_classesApart_iff converted).mp apart⟩

/-- A group and a mark class may have one name, and then share their class. -/
theorem exists_not_classesApart :
    ¬ ∀ (statements : List Statement) (glyphOrder : Option GlyphOrder) (options : Options)
      (log : List Notice) (document : Document),
      convert statements glyphOrder options = ⟨log, .ok document⟩ → document.ClassesApart := by
  intro always
  have glyphs : (convert (.group ⟨"top", [.glyph "a"], ⟨1, 1⟩⟩ :: markedBase "top")
      none {}).result.toOption.map Document.glyphClassNames = some ["top"] := by
    decide +kernel
  have marks : (convert (.group ⟨"top", [.glyph "a"], ⟨1, 1⟩⟩ :: markedBase "top")
      none {}).result.toOption.map Document.markClassNames = some ["top"] := by
    decide +kernel
  obtain ⟨log, document, converted⟩ : ∃ log document,
      convert (.group ⟨"top", [.glyph "a"], ⟨1, 1⟩⟩ :: markedBase "top") none {} =
        ⟨log, .ok document⟩ :=
    Outcome.exists_of_isOk (by decide +kernel)
  simp only [converted, Except.toOption, Option.map_some, Option.some.injEq] at glyphs marks
  have apart := always _ none {} log document converted
  rw [Document.ClassesApart, glyphs, marks] at apart
  exact absurd apart (by decide)

end GlyphLayout
