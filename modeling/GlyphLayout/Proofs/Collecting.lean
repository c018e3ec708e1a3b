import GlyphLayout.Assembly.Document
import GlyphLayout.Proofs.Identifier
import GlyphLayout.Proofs.Outcome
import GlyphLayout.Proofs.SortedTable
import GlyphLayout.Proofs.Table

/-!
# Taking in statements

What a statement does to the definitions is said once, so what every statement preserves is true
of a whole project.  This is used here for the names of classes, which groups and mark classes
draw from one pool.  After some statements have been taken in, a group is found under its
lowercased name with the identifier of the last name that was spelled so, and a mark class has
the identifier of its own name.
-/

namespace GlyphLayout
namespace Definitions

open Source (AnchorDefinition GlyphDefinition GroupDefinition LookupDefinition ScriptDefinition
  Setting Statement)

/-! ## Names among statements -/

/-- The name of the group that a statement defines. -/
def groupName? : Statement → Option String
  | .group group => some group.name
  | _ => none

/-- The mark class that a statement puts a glyph into. -/
def markClass? : Statement → Option String
  | .anchor anchor => markClassOf? anchor.name
  | _ => none

/-- The names of the groups that some statements define. -/
def groupNames (statements : List Statement) : List String :=
  statements.filterMap groupName?

/-- The mark classes that some statements put glyphs into. -/
def markClassNames (statements : List Statement) : List String :=
  statements.filterMap markClass?

/-- The last of some names that has the given form in lowercase. -/
def lastSpelling (key : String) (names : List String) : Option String :=
  (names.filter fun name => Text.lowercase name = key).getLast?

theorem lastSpelling_snoc (key : String) (names : List String) (name : String) :
    lastSpelling key (names ++ [name]) =
      if Text.lowercase name = key then some name else lastSpelling key names := by
  by_cases same : Text.lowercase name = key <;> simp [lastSpelling, same]

theorem of_lastSpelling
    {key name : String}
    {names : List String}
    (last : lastSpelling key names = some name) :
    name ∈ names ∧ Text.lowercase name = key := by
  have inside := List.mem_of_getLast? last
  simpa using List.mem_filter.mp inside

/-! ## One statement -/

/-- The definition of a glyph changes the classes and kinds of glyphs alone. -/
theorem classify_eq
    (definitions : Definitions)
    (glyph : GlyphDefinition)
    (output : Feature.Glyphs) :
    definitions.classify glyph output =
      { definitions with
        glyphClasses := (definitions.classify glyph output).glyphClasses
        ligatures := (definitions.classify glyph output).ligatures
        marks := (definitions.classify glyph output).marks } := by
  unfold classify
  split <;> rfl

/-- Naming a mark class changes names alone. -/
theorem nameMarkClass_eq (definitions : Definitions) (markClass : String) :
    definitions.nameMarkClass markClass =
      { definitions with
        classNames := (definitions.nameMarkClass markClass).classNames
        markClasses := (definitions.nameMarkClass markClass).markClasses } := by
  unfold nameMarkClass
  split <;> rfl

/-- The point at which a definition puts an anchor. -/
def pointOf (anchor : AnchorDefinition) : Feature.Anchor :=
  ⟨anchor.placement.dx.getD 0, anchor.placement.dy.getD 0, anchor.placement.xDevices,
    anchor.placement.yDevices⟩

/-- What a statement does to the definitions when it is taken in. -/
inductive AddStep (definitions : Definitions) : Statement → Definitions → Prop
  | glyph
      {glyph : GlyphDefinition} {outputName : String}
      (named : definitions.nameFor glyph = .ok outputName) :
      AddStep definitions (.glyph glyph)
        { definitions with
          glyphClasses := (definitions.classify glyph (.glyph outputName)).glyphClasses
          ligatures := (definitions.classify glyph (.glyph outputName)).ligatures
          marks := (definitions.classify glyph (.glyph outputName)).marks
          namesById :=
            if definitions.namesById.contains glyph.id then definitions.namesById
            else definitions.namesById.insert glyph.id glyph.name
          glyphs := definitions.glyphs.insert glyph.name ⟨glyph.id, outputName⟩ }
  | group
      {group : GroupDefinition} {members : List Feature.Glyphs} {glyphs : List String}
      (resolved : definitions.resolve group.location group.members = .ok members)
      (expanded : definitions.expand group.location group.members = .ok glyphs) :
      AddStep definitions (.group group)
        { definitions with
          classNames := (definitions.classNames.identify group.name).2
          groups := definitions.groups.insert (Text.lowercase group.name)
            ⟨(definitions.classNames.identify group.name).1,
              members.flatMap Feature.Glyphs.parts, glyphs⟩ }
  | script
      {script : ScriptDefinition} {features : LanguageSystems}
      (recorded : addLanguages definitions.features script = .ok features) :
      AddStep definitions (.script script) { definitions with features }
  | markAnchor
      {anchor : AnchorDefinition} {markClass : String}
      (named : markClassOf? anchor.name = some markClass) :
      AddStep definitions (.anchor anchor)
        { definitions with
          classNames := (definitions.nameMarkClass markClass).classNames
          markClasses := (definitions.nameMarkClass markClass).markClasses
          markAnchors := definitions.markAnchors.insert
            ⟨⟨anchor.glyph, markClass⟩, anchor.component⟩ (pointOf anchor) }
  | baseAnchor
      {anchor : AnchorDefinition}
      (plain : markClassOf? anchor.name = none) :
      AddStep definitions (.anchor anchor)
        (definitions.addBaseAnchor anchor.glyph anchor.name anchor.component (pointOf anchor))
  | setting {setting : Setting} (settings : OrderedMap String (List Int32)) :
      AddStep definitions (.setting setting) { definitions with settings }
  | lookup {lookup : LookupDefinition} :
      AddStep definitions (.lookup lookup) definitions

theorem addMarkAnchor_eq
    (definitions : Definitions)
    (place : MarkPlace)
    (point : Feature.Anchor) :
    definitions.addMarkAnchor place point =
      { definitions with
        classNames := (definitions.nameMarkClass place.member.markClass).classNames
        markClasses := (definitions.nameMarkClass place.member.markClass).markClasses
        markAnchors := definitions.markAnchors.insert place point } := by
  rw [addMarkAnchor, nameMarkClass_eq]

theorem addStep_of_add
    {definitions next : Definitions}
    {statement : Statement}
    {log : List Notice}
    (added : definitions.add statement = ⟨log, .ok next⟩) :
    AddStep definitions statement next := by
  cases statement with
  | glyph glyph =>
      obtain ⟨_, added⟩ := Outcome.ofExcept_eq_ok_iff.mp added
      obtain ⟨outputName, named, result⟩ := except_bind_eq_ok_iff.mp added
      rw [classify_eq] at result
      cases result
      exact .glyph named
  | group group =>
      obtain ⟨members, resolved, added⟩ := Outcome.liftM_bind_eq_ok_iff.mp added
      obtain ⟨glyphs, expanded, added⟩ := Outcome.liftM_bind_eq_ok_iff.mp added
      obtain ⟨_, _, _, _, result, _⟩ := Outcome.bind_eq_ok_iff.mp added
      cases result
      exact .group resolved expanded
  | script script =>
      obtain ⟨_, features⟩ := Outcome.ofExcept_eq_ok_iff.mp added
      obtain ⟨_, recorded, result⟩ := except_bind_eq_ok_iff.mp features
      cases result
      exact .script recorded
  | lookup lookup =>
      cases added
      exact .lookup
  | anchor anchor =>
      obtain ⟨_, _, _, _, added, _⟩ := Outcome.bind_eq_ok_iff.mp added
      dsimp only at added
      split at added
      · rename_i named
        rw [addMarkAnchor_eq] at added
        cases added
        exact .markAnchor named
      · rename_i plain
        cases added
        exact .baseAnchor plain
  | setting setting =>
      simp only [add, addSetting] at added
      split at added
      · cases added
        exact .setting _
      · obtain ⟨_, _, _, _, result, _⟩ := Outcome.bind_eq_ok_iff.mp added
        cases result
        exact .setting definitions.settings

/-- What a statement does to the classes that have been named. -/
inductive ClassStep (definitions : Definitions) : Statement → Definitions → Prop
  | group
      {group : GroupDefinition} {members : List Feature.Glyphs} {glyphs : List String}
      (resolved : definitions.resolve group.location group.members = .ok members)
      (expanded : definitions.expand group.location group.members = .ok glyphs) :
      ClassStep definitions (.group group)
        { definitions with
          classNames := (definitions.classNames.identify group.name).2
          groups := definitions.groups.insert (Text.lowercase group.name)
            ⟨(definitions.classNames.identify group.name).1,
              members.flatMap Feature.Glyphs.parts, glyphs⟩ }
  | markAnchor
      {anchor : AnchorDefinition} {markClass : String} {point : Feature.Anchor}
      (named : markClassOf? anchor.name = some markClass) :
      ClassStep definitions (.anchor anchor)
        (definitions.addMarkAnchor ⟨⟨anchor.glyph, markClass⟩, anchor.component⟩ point)
  | other
      {statement : Statement} {next : Definitions}
      (noGroup : groupName? statement = none)
      (noMark : markClass? statement = none)
      (classNames : next.classNames = definitions.classNames)
      (groups : next.groups = definitions.groups)
      (markClasses : next.markClasses = definitions.markClasses)
      (markAnchors : next.markAnchors = definitions.markAnchors) :
      ClassStep definitions statement next

theorem classStep_of_add
    {definitions next : Definitions}
    {statement : Statement}
    {log : List Notice}
    (added : definitions.add statement = ⟨log, .ok next⟩) :
    ClassStep definitions statement next := by
  cases addStep_of_add added with
  | glyph | script | setting | lookup => exact .other rfl rfl rfl rfl rfl rfl
  | baseAnchor plain => exact .other rfl plain rfl rfl rfl rfl
  | group resolved expanded => exact .group resolved expanded
  | markAnchor named =>
      rw [← addMarkAnchor_eq]
      exact .markAnchor named

/-! ## All statements -/

/-- What taking in a statement preserves is true once all statements have been taken in. -/
theorem collect_induction_add
    {statements : List Statement}
    {glyphOrder : Option GlyphOrder}
    {definitions : Definitions}
    {log : List Notice}
    {invariant : List Statement → Definitions → Prop}
    (start : invariant [] { glyphOrder })
    (step : ∀ done statement before after part, invariant done before →
      before.add statement = ⟨part, .ok after⟩ → invariant (done ++ [statement]) after)
    (collected : collect statements glyphOrder = ⟨log, .ok definitions⟩) :
    invariant statements definitions := by
  obtain ⟨_, last, _, folded, result, _⟩ := Outcome.bind_eq_ok_iff.mp collected
  cases result
  -- The statements still to come are the ones that the fold goes through.
  have run : ∀ (todo done : List Statement) (before after : Definitions) (part : List Notice),
      invariant done before → todo.foldlM add before = ⟨part, .ok after⟩ →
        invariant (done ++ todo) after := by
    intro todo
    induction todo with
    | nil =>
        intro done before after part holds folded
        cases folded
        rwa [List.append_nil]
    | cons statement todo ih =>
        intro done before after part holds folded
        rw [List.foldlM_cons] at folded
        obtain ⟨_, middle, _, added, rest, _⟩ := Outcome.bind_eq_ok_iff.mp folded
        have later := ih (done ++ [statement]) middle after _
          (step done statement before middle _ holds added) rest
        rwa [List.append_assoc] at later
  exact run statements [] _ _ _ start folded

/-- What every statement preserves is true once all statements have been taken in. -/
theorem collect_induction
    {statements : List Statement}
    {glyphOrder : Option GlyphOrder}
    {definitions : Definitions}
    {log : List Notice}
    {invariant : List Statement → Definitions → Prop}
    (start : invariant [] { glyphOrder })
    (step : ∀ done statement before after, invariant done before →
      ClassStep before statement after → invariant (done ++ [statement]) after)
    (collected : collect statements glyphOrder = ⟨log, .ok definitions⟩) :
    invariant statements definitions :=
  collect_induction_add start (fun done statement before after _ holds added =>
    step done statement before after holds (classStep_of_add added)) collected

/-- What is known of classes after some statements have been taken in. -/
structure ClassesNamed (statements : List Statement) (definitions : Definitions) : Prop where
  distinct : definitions.classNames.Distinct
  groupsKnown : ∀ name ∈ groupNames statements, definitions.classNames.Knows name
  markClassesKnown : ∀ name ∈ markClassNames statements, definitions.classNames.Knows name
  /-- A group has the class of the last name that is spelled like its key. -/
  className_eq : ∀ key, (definitions.groups.get? key).map Group.className =
    (lastSpelling key (groupNames statements)).map definitions.classNames.identifierOf
  markClassName_eq : ∀ markClass, definitions.markClassName? markClass =
    if markClass ∈ markClassNames statements
    then some (definitions.classNames.identifierOf markClass) else none
  /-- The mark classes are those of the places. -/
  placed : ∀ markClass, markClass ∈ markClassNames statements ↔
    ∃ entry ∈ definitions.markAnchors.entries, entry.1.member.markClass = markClass

/-- The mark class of a place has a name. -/
theorem ClassesNamed.markClassName_of_place
    {statements : List Statement}
    {definitions : Definitions}
    {entry : MarkPlace × Feature.Anchor}
    (named : ClassesNamed statements definitions)
    (present : entry ∈ definitions.markAnchors.entries) :
    definitions.markClassName? entry.1.member.markClass =
      some (definitions.classNames.identifierOf entry.1.member.markClass) := by
  rw [named.markClassName_eq, if_pos ((named.placed _).mpr ⟨entry, present, rfl⟩)]

theorem classesNamed_nil (glyphOrder : Option GlyphOrder) :
    ClassesNamed [] { glyphOrder } where
  distinct := IdentifierPool.distinct_empty _
  groupsKnown := by simp [groupNames]
  markClassesKnown := by simp [markClassNames]
  className_eq key := rfl
  markClassName_eq markClass := rfl
  placed markClass := ⟨nofun, nofun⟩

section Step

variable {statements : List Statement} {definitions : Definitions}

theorem ClassesNamed.className_eq_of_grows
    {pool : IdentifierPool}
    (named : ClassesNamed statements definitions)
    (grows : definitions.classNames.Grows pool)
    (key : String) :
    (definitions.groups.get? key).map Group.className =
      (lastSpelling key (groupNames statements)).map pool.identifierOf := by
  rw [named.className_eq]
  apply Option.map_congr
  intro name last
  have known := named.groupsKnown name (of_lastSpelling last).1
  exact (IdentifierPool.identifierOf_of_grows grows known).symm

theorem ClassesNamed.markClassName_eq_of_grows
    {pool : IdentifierPool}
    (named : ClassesNamed statements definitions)
    (grows : definitions.classNames.Grows pool)
    (markClass : String) :
    definitions.markClassName? markClass =
      if markClass ∈ markClassNames statements
      then some (pool.identifierOf markClass) else none := by
  rw [named.markClassName_eq]
  split
  · rename_i member
    have known := named.markClassesKnown markClass member
    exact congrArg some (IdentifierPool.identifierOf_of_grows grows known).symm
  · rfl

/-- The classes of the places are those before and the one of the new place. -/
theorem exists_place_addMarkAnchor_iff
    {place : MarkPlace}
    {point : Feature.Anchor}
    {markClass : String} :
    (∃ entry ∈ (definitions.addMarkAnchor place point).markAnchors.entries,
        entry.1.member.markClass = markClass) ↔
      (∃ entry ∈ definitions.markAnchors.entries, entry.1.member.markClass = markClass)
        ∨ markClass = place.member.markClass := by
  have keys (other : MarkPlace) : other ∈ (definitions.addMarkAnchor place
      point).markAnchors.entries.map Prod.fst ↔
        other = place ∨ other ∈ definitions.markAnchors.entries.map Prod.fst := by
    rw [addMarkAnchor_eq]
    exact SortedMap.mem_map_fst_put_iff
  constructor
  · rintro ⟨entry, inside, rfl⟩
    rcases (keys entry.1).mp (List.mem_map_of_mem inside) with new | before
    · exact .inr (by rw [new])
    · obtain ⟨old, present, same⟩ := List.mem_map.mp before
      exact .inl ⟨old, present, by rw [same]⟩
  · rintro (⟨entry, inside, rfl⟩ | rfl)
    · obtain ⟨new, present, same⟩ :=
        List.mem_map.mp ((keys entry.1).mpr (.inr (List.mem_map_of_mem inside)))
      exact ⟨new, present, by rw [same]⟩
    · obtain ⟨new, present, same⟩ := List.mem_map.mp ((keys place).mpr (.inl rfl))
      exact ⟨new, present, by rw [same]⟩

theorem ClassesNamed.group
    (named : ClassesNamed statements definitions)
    (group : GroupDefinition)
    (members : List Feature.Glyphs)
    (glyphs : List String) :
    ClassesNamed (statements ++ [.group group])
      { definitions with
        classNames := (definitions.classNames.identify group.name).2
        groups := definitions.groups.insert (Text.lowercase group.name)
          ⟨(definitions.classNames.identify group.name).1, members, glyphs⟩ } := by
  have groups_eq : groupNames (statements ++ [.group group]) =
      groupNames statements ++ [group.name] := by
    simp [groupNames, groupName?]
  have marks_eq : markClassNames (statements ++ [.group group]) = markClassNames statements := by
    simp [markClassNames, markClass?]
  have grows := IdentifierPool.grows_identify definitions.classNames group.name
  constructor
  case distinct => exact named.distinct.identify group.name
  case groupsKnown =>
    rw [groups_eq]
    intro name member
    rcases List.mem_append.mp member with before | new
    · exact (named.groupsKnown name before).mono grows
    · rw [List.mem_singleton.mp new]
      exact IdentifierPool.knows_identify _ _
  case markClassesKnown =>
    rw [marks_eq]
    exact fun name member => (named.markClassesKnown name member).mono grows
  case className_eq =>
    intro key
    rw [groups_eq, lastSpelling_snoc, OrderedMap.get?_insert]
    simp only [@eq_comm _ key]
    split
    · exact congrArg some (IdentifierPool.identify_fst _ _)
    · exact named.className_eq_of_grows grows key
  case markClassName_eq =>
    rw [marks_eq]
    exact named.markClassName_eq_of_grows grows
  case placed =>
    rw [marks_eq]
    exact named.placed

/-- A mark class that has been named already keeps its name; a new one gets an identifier. -/
theorem ClassesNamed.nameMarkClass
    (named : ClassesNamed statements definitions)
    (markClass : String) :
    definitions.classNames.Grows (definitions.nameMarkClass markClass).classNames
      ∧ (definitions.nameMarkClass markClass).classNames.Distinct
      ∧ (definitions.nameMarkClass markClass).classNames.Knows markClass
      ∧ ∀ other, (definitions.nameMarkClass markClass).markClassName? other =
          if other = markClass
          then some ((definitions.nameMarkClass markClass).classNames.identifierOf markClass)
          else definitions.markClassName? other := by
  have before := named.markClassName_eq markClass
  unfold Definitions.nameMarkClass
  split
  · rename_i present
    have member : markClass ∈ markClassNames statements := by
      by_contra absent
      rw [if_neg absent, markClassName?] at before
      rw [OrderedMap.contains, before] at present
      cases present
    rw [if_pos member] at before
    refine ⟨.refl _, named.distinct, named.markClassesKnown _ member, fun other => ?_⟩
    split
    · rename_i same
      rw [same, before]
    · rfl
  · refine ⟨IdentifierPool.grows_identify _ _, named.distinct.identify _,
      IdentifierPool.knows_identify _ _, fun other => ?_⟩
    rw [← IdentifierPool.identify_fst]
    exact OrderedMap.get?_insert ..

theorem ClassesNamed.markAnchor
    (named : ClassesNamed statements definitions)
    {anchor : AnchorDefinition}
    {markClass : String}
    (point : Feature.Anchor)
    (ofAnchor : markClassOf? anchor.name = some markClass) :
    ClassesNamed (statements ++ [.anchor anchor])
      (definitions.addMarkAnchor ⟨⟨anchor.glyph, markClass⟩, anchor.component⟩ point) := by
  obtain ⟨grows, distinct, knows, names⟩ := named.nameMarkClass markClass
  have groups_eq : groupNames (statements ++ [.anchor anchor]) = groupNames statements := by
    simp [groupNames, groupName?]
  have marks_eq : markClassNames (statements ++ [.anchor anchor]) =
      markClassNames statements ++ [markClass] := by
    simp [markClassNames, markClass?, ofAnchor]
  constructor
  case distinct => exact distinct
  case groupsKnown =>
    rw [groups_eq]
    exact fun name member => (named.groupsKnown name member).mono grows
  case markClassesKnown =>
    rw [marks_eq]
    intro name member
    rcases List.mem_append.mp member with before | new
    · exact (named.markClassesKnown name before).mono grows
    · rw [List.mem_singleton.mp new]
      exact knows
  case className_eq =>
    rw [groups_eq, addMarkAnchor_eq]
    exact named.className_eq_of_grows grows
  case markClassName_eq =>
    intro other
    refine (names other).trans ?_
    rw [marks_eq]
    by_cases same : other = markClass
    · simp [same, addMarkAnchor]
    · simp only [same, if_false, List.mem_append, List.mem_singleton, or_false]
      exact named.markClassName_eq_of_grows grows other
  case placed =>
    intro other
    rw [marks_eq, List.mem_append, List.mem_singleton, exists_place_addMarkAnchor_iff,
      named.placed]

theorem ClassesNamed.step
    {statement : Statement}
    {next : Definitions}
    (named : ClassesNamed statements definitions)
    (step : ClassStep definitions statement next) :
    ClassesNamed (statements ++ [statement]) next := by
  cases step with
  | group resolved expanded => exact named.group _ _ _
  | markAnchor ofAnchor => exact named.markAnchor _ ofAnchor
  | other noGroup noMark classNames groups markClasses markAnchors =>
      have groups_eq : groupNames (statements ++ [statement]) = groupNames statements := by
        simp [groupNames, noGroup]
      have marks_eq : markClassNames (statements ++ [statement]) =
          markClassNames statements := by
        simp [markClassNames, noMark]
      constructor
      case distinct => rw [classNames]; exact named.distinct
      case groupsKnown => rw [groups_eq, classNames]; exact named.groupsKnown
      case markClassesKnown => rw [marks_eq, classNames]; exact named.markClassesKnown
      case className_eq => rw [groups_eq, classNames, groups]; exact named.className_eq
      case markClassName_eq =>
        intro markClass
        rw [marks_eq, classNames, markClassName?, markClasses]
        exact named.markClassName_eq markClass
      case placed => rw [marks_eq, markAnchors]; exact named.placed

end Step

/-- The classes that a project names. -/
theorem classesNamed_of_collect
    {statements : List Statement}
    {glyphOrder : Option GlyphOrder}
    {definitions : Definitions}
    {log : List Notice}
    (collected : collect statements glyphOrder = ⟨log, .ok definitions⟩) :
    ClassesNamed statements definitions :=
  collect_induction (classesNamed_nil glyphOrder)
    (fun _ _ _ _ named step => named.step step) collected

end Definitions
end GlyphLayout
