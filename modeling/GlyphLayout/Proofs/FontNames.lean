import GlyphLayout.Proofs.ActiveMarks
import GlyphLayout.Proofs.RuleNames
import Mathlib.Data.List.Induction

/-!
# Names of the font

A feature file calls each glyph by its name in the font, wherever the glyph is defined, with one
exception: the members of a group are named when the group is read, and a glyph that is defined
only behind it keeps the name of the project there.
-/

namespace GlyphLayout

open Compilation (lookupsOf)
open Feature (Document Glyphs)
open Source (GroupDefinition Reading Statement)

namespace OrderedMap

variable {κ α β : Type} [DecidableEq κ] {related : α → β → Prop}

/-- Two lists of entries with the same keys and related values. -/
abbrev Parallel (related : α → β → Prop) : List (κ × α) → List (κ × β) → Prop :=
  List.Forall₂ fun first second => first.1 = second.1 ∧ related first.2 second.2

/-- Entries stay in parallel when one key gets related values. -/
theorem parallel_put
    {first : List (κ × α)}
    {second : List (κ × β)}
    {value : α}
    {other : β}
    (parallel : Parallel related first second)
    (key : κ)
    (new : related value other) :
    Parallel related (put key value first) (put key other second) := by
  induction parallel with
  | nil => exact .cons ⟨rfl, new⟩ .nil
  | @cons entry entry' rest rest' head tail ih =>
      unfold put
      rw [← head.1]
      split
      · exact .cons ⟨rfl, new⟩ tail
      · exact .cons head ih

omit [DecidableEq κ] in
theorem forall₂_values_of_parallel
    {first : OrderedMap κ α}
    {second : OrderedMap κ β}
    (parallel : Parallel related first.entries second.entries) :
    List.Forall₂ related first.values second.values := by
  rw [values, values, List.forall₂_map_left_iff, List.forall₂_map_right_iff]
  exact parallel.imp fun _ _ both => both.2

end OrderedMap

/-- What is true row by row of two related lists may be said of the first one alone. -/
theorem forall₂_iff_of_forall₂
    {α β : Type}
    {related known : α → β → Prop}
    {property : α → Prop}
    {first : List α}
    {second : List β}
    (rows : List.Forall₂ known first second)
    (each : ∀ item ∈ first, ∀ other, known item other → (related item other ↔ property item)) :
    List.Forall₂ related first second ↔ ∀ item ∈ first, property item := by
  induction rows with
  | nil => simp
  | cons head _ ih =>
      rw [List.forall_mem_cons] at each ⊢
      rw [List.forall₂_cons, each.1 _ head, ih each.2]

/-! ## Groups and what stands in front of them -/

/-- A group and the statements in front of it. -/
structure PlacedGroup where
  before : List Statement
  group : GroupDefinition

namespace Definitions

/-- Enters the group that a statement defines; it takes the place of an earlier one. -/
def enterGroup (table : OrderedMap String PlacedGroup) (before : List Statement) :
    Statement → OrderedMap String PlacedGroup
  | .group group => table.insert (Text.lowercase group.name) ⟨before, group⟩
  | _ => table

/-- Enters the groups of some statements, with those that have been read. -/
def enterGroups (table : OrderedMap String PlacedGroup) (before : List Statement) :
    List Statement → OrderedMap String PlacedGroup
  | [] => table
  | statement :: rest =>
      enterGroups (enterGroup table before statement) (before ++ [statement]) rest

/-- The groups of a project by their lowercased names. -/
def placedGroups (statements : List Statement) : OrderedMap String PlacedGroup :=
  enterGroups ∅ [] statements

theorem enterGroups_snoc
    (table : OrderedMap String PlacedGroup)
    (before todo : List Statement)
    (statement : Statement) :
    enterGroups table before (todo ++ [statement]) =
      enterGroup (enterGroups table before todo) (before ++ todo) statement := by
  induction todo generalizing table before with
  | nil => simp [enterGroups]
  | cons head rest ih => simp [enterGroups, ih]

theorem placedGroups_snoc (statements : List Statement) (statement : Statement) :
    placedGroups (statements ++ [statement]) =
      enterGroup (placedGroups statements) statements statement :=
  enterGroups_snoc ..

/-- What stands in front of a group is where the project begins. -/
theorem before_prefix_of_mem_placedGroups
    {statements : List Statement}
    {placed : PlacedGroup}
    (member : placed ∈ (placedGroups statements).values) :
    placed.before <+: statements := by
  obtain ⟨⟨key, _⟩, inside, rfl⟩ := List.mem_map.mp member
  clear member
  induction statements using List.reverseRecOn generalizing key with
  | nil => cases inside
  | append_singleton statements statement ih =>
      have longer := List.prefix_append statements [statement]
      rw [placedGroups_snoc] at inside
      cases statement with
      | group group =>
          rcases OrderedMap.mem_put inside with same | earlier
          · cases same
            exact longer
          · exact (ih key earlier).trans longer
      | _ => exact (ih key inside).trans longer

/-! ## Groups after some statements -/

variable {order : GlyphOrder} {statements : List Statement} {definitions : Definitions}

/-- The members of a group have the names that the font has for what stands in front of it. -/
def MembersNamed (order : GlyphOrder) (placed : PlacedGroup) (members : List Glyphs) : Prop :=
  Glyphs.glyphNamesOf members = (fontReading order placed.before).items placed.group.members

/-- What is known of groups after some statements, for a font with a glyph order. -/
structure GroupsNamed (order : GlyphOrder) (statements : List Statement)
    (definitions : Definitions) : Prop extends GlyphsNamed order statements definitions where
  parallel : OrderedMap.Parallel (fun placed group => MembersNamed order placed group.members)
    (placedGroups statements).entries definitions.groups.entries

theorem GroupsNamed.step
    {statement : Statement}
    {next : Definitions}
    (known : GroupsNamed order statements definitions)
    (glyphStep : GlyphStep definitions statement next)
    (classStep : ClassStep definitions statement next) :
    GroupsNamed order (statements ++ [statement]) next := by
  refine ⟨known.toGlyphsNamed.step glyphStep, ?_⟩
  rw [placedGroups_snoc]
  cases classStep with
  | group resolved expanded =>
      refine OrderedMap.parallel_put known.parallel _ ?_
      rw [MembersNamed, Glyphs.glyphNamesOf, Glyphs.leavesOf_flatMap_parts]
      exact known.glyphNamesOf_resolve resolved
  | markAnchor =>
      rw [addMarkAnchor_eq]
      exact known.parallel
  | other noGroup _ _ groups =>
      have same : enterGroup (placedGroups statements) statements statement =
          placedGroups statements := by
        cases statement with
        | group => cases noGroup
        | _ => rfl
      rw [same, groups]
      exact known.parallel

theorem groupsNamed_of_collect
    {log : List Notice}
    (collected : collect statements (some order) = ⟨log, .ok definitions⟩) :
    GroupsNamed order statements definitions :=
  collect_induction_add ⟨glyphsNamed_nil order, .nil⟩
    (fun _ _ _ _ _ known added => known.step (glyphStep_of_add added) (classStep_of_add added))
    collected

/-! ## Following the font -/

/-- Whatever the project defines exactly once is called by its name in the font. -/
def FollowsFont (order : GlyphOrder) (statements : List Statement)
    (naming : String → String) : Prop :=
  ∀ name id, glyphIds statements name = [id] → order.get? id = some (naming name)

theorem GlyphsNamed.followsFont
    (known : GlyphsNamed order statements definitions) :
    FollowsFont order statements (fontName order statements) := by
  intro name id once
  have found := known.id_eq name
  rw [once, List.getLast?_singleton, Option.map_eq_some_iff] at found
  obtain ⟨entry, found, rfl⟩ := found
  have named := known.named name entry found
  rw [fontName, once, List.getLast?_singleton, Option.bind_some, named, Option.getD_some]

/-- Some names can be made part of a naming that follows the font if they do themselves. -/
theorem exists_followsFont_iff
    {naming : String → String}
    {names : List String}
    (follows : FollowsFont order statements (fontName order statements)) :
    (∃ other, FollowsFont order statements other ∧ ∀ name ∈ names, naming name = other name) ↔
      ∀ name ∈ names, ∀ id, glyphIds statements name = [id] →
        order.get? id = some (naming name) := by
  constructor
  · rintro ⟨other, followsOther, same⟩ name member id once
    rw [same name member]
    exact followsOther name id once
  · intro each
    refine ⟨fun name => if name ∈ names then naming name else fontName order statements name,
      fun name id once => ?_, fun name member => (if_pos member).symm⟩
    dsimp only
    split
    · rename_i member
      exact each name member id once
    · exact follows name id once

/--
A glyph that is defined once has its name in the font already in front of some statement if it
is defined there, or if the font calls it as the project does.
-/
theorem order_eq_fontName_iff
    {before : List Statement}
    {name : String}
    {id : UInt16}
    (follows : FollowsFont order statements (fontName order statements))
    (isPrefix : before <+: statements)
    (once : glyphIds statements name = [id]) :
    order.get? id = some (fontName order before name) ↔
      glyphIds before name = [id] ∨ order.get? id = some name := by
  obtain ⟨after, rfl⟩ := isPrefix
  have split : glyphIds before name ++ glyphIds after name = [id] := by
    rw [← once]
    simp [glyphIds, definedGlyphs]
  rcases List.append_eq_singleton_iff.mp split with ⟨none, _⟩ | ⟨here, _⟩
  · simp [fontName, none]
  · have named := follows name id once
    have same : fontName order before name = fontName order (before ++ after) name := by
      rw [fontName, fontName, here, once]
    simp [same, here, named]

end Definitions

/-! ## Conversions -/

open Definitions

/--
The members of a class are those of a group, in order, each glyph under a name that follows the
font and each range as it stands when the group is read.
-/
def ClassNamedByFont (order : GlyphOrder) (statements : List Statement) (placed : PlacedGroup)
    (definition : Feature.GlyphClass) : Prop :=
  ∃ naming, FollowsFont order statements naming
    ∧ Glyphs.glyphNamesOf definition.members =
        (Reading.names naming (rangeNames order placed.before)).items placed.group.members

theorem classNamedByFont_iff
    {order : GlyphOrder}
    {statements : List Statement}
    {placed : PlacedGroup}
    {definition : Feature.GlyphClass}
    (follows : FollowsFont order statements (fontName order statements))
    (member : placed ∈ (placedGroups statements).values)
    (named : MembersNamed order placed definition.members) :
    ClassNamedByFont order statements placed definition ↔
      ∀ name ∈ Reading.mentions.items placed.group.members,
        ∀ id, glyphIds statements name = [id] →
          glyphIds placed.before name = [id] ∨ order.get? id = some name := by
  rw [ClassNamedByFont, named, fontReading]
  simp only [Reading.items_names_eq_iff]
  rw [exists_followsFont_iff follows]
  refine forall₂_congr fun name _ => forall₂_congr fun id once => ?_
  exact order_eq_fontName_iff follows (before_prefix_of_mem_placedGroups member) once

/-- The glyphs of a feature file have the names that a font gives to those of a project. -/
structure NamedByFont (order : GlyphOrder) (statements : List Statement)
    (document : Document) : Prop where
  follows : FollowsFont order statements (fontName order statements)
  classes : List.Forall₂ (ClassNamedByFont order statements) (placedGroups statements).values
    document.glyphClasses
  markClasses : ∃ places : List MarkPlace, places.Pairwise (· < ·)
    ∧ (∀ place, place ∈ places ↔ place ∈ markPlaces statements)
    ∧ List.Forall₂ (fun place statement =>
        statement.glyph = .glyph (fontName order statements place.member.glyph))
      places document.markClasses
  rules : ∃ definitions, (collect statements (some order)).result = .ok definitions
    ∧ ∀ block ∈ document.lookups, ∀ rule ∈ block.rules, rule.glyphNames = [] ∨
        ∃ lookup ∈ lookupsOf statements, NamesGlyphsOf order statements definitions lookup rule
  /-- The glyphs of each kind, each by the name of its own id. -/
  slots : ∀ kind, List.Forall₂ (IsNamed order) (glyphsOfKind statements kind)
    (slot kind (document.definitions.getD {}))

/--
A project that is converted for a font has the names of the font throughout exactly if each
glyph that a group mentions, and that is defined once, is defined in front of the group or has
its name in the font anyway.
-/
theorem convert_namedByFont_iff
    {statements : List Statement}
    {order : GlyphOrder}
    {options : Options}
    {log : List Notice}
    {document : Document}
    (converted : convert statements (some order) options = ⟨log, .ok document⟩) :
    NamedByFont order statements document ↔
      ∀ placed ∈ (placedGroups statements).values,
        ∀ name ∈ Reading.mentions.items placed.group.members,
        ∀ id, glyphIds statements name = [id] →
          glyphIds placed.before name = [id] ∨ order.get? id = some name := by
  obtain ⟨_, definitions, _, state, collected, _, classes_eq, marks_eq, gathers⟩ :=
    sources_of_convert converted
  have known := groupsNamed_of_collect collected
  have follows := known.followsFont
  have classes : List.Forall₂ (fun placed definition =>
      MembersNamed order placed definition.members)
      (placedGroups statements).values document.glyphClasses := by
    rw [classes_eq, glyphClassBlocks, List.forall₂_map_right_iff]
    exact OrderedMap.forall₂_values_of_parallel known.parallel
  have classes_iff : List.Forall₂ (ClassNamedByFont order statements)
      (placedGroups statements).values document.glyphClasses ↔ _ :=
    forall₂_iff_of_forall₂ classes fun _ member _ named =>
      classNamedByFont_iff follows member named
  refine ⟨fun named => classes_iff.mp named.classes, fun each => ?_⟩
  constructor
  case follows => exact follows
  case classes => exact classes_iff.mpr each
  case markClasses =>
    refine ⟨definitions.markAnchors.entries.map Prod.fst,
      List.pairwise_map.mpr definitions.markAnchors.sorted,
      mem_markAnchors_iff_of_collect collected, ?_⟩
    rw [marks_eq, markClassBlocks, List.forall₂_map_left_iff, List.forall₂_map_right_iff,
      List.forall₂_same]
    exact fun entry _ => congrArg Glyphs.glyph (known.outputName_eq entry.1.member.glyph)
  case rules =>
    refine ⟨definitions, by rw [collected], fun block listed rule member => ?_⟩
    cases (gathers block listed).stems member with
    | comment text => exact .inl rfl
    | subtable => exact .inl rfl
    | flags => exact .inl rfl
    | rule defined translated present written rename =>
        have origin := translated.origin present written
        exact .inr ⟨_, defined, (origin.namesGlyphsOf known.toGlyphsNamed).relabel rename⟩
  case slots =>
    obtain ⟨_, again, collectedAgain, same⟩ := definitions_of_convert converted
    rw [collected] at collectedAgain
    cases collectedAgain
    exact same ▸ known.slots

/-- The definition of the glyph that other statements call `a`. -/
def letterA : Statement :=
  .glyph ⟨"a", 1, [0x61], some .base, none, ⟨1, 1⟩⟩

/-- A group of that glyph alone. -/
def letters : Statement :=
  .group ⟨"letters", [.enumeration [.glyph "a"]], ⟨1, 1⟩⟩

/-- A mark that is attached to a letter, and the letter kerned against itself. -/
def accentedLetter : List Statement :=
  [letterA, .glyph ⟨"acute", 2, [], some .mark, none, ⟨1, 1⟩⟩, letters] ++ markedBase "top" ++
    [attachingIn [⟨.except, [[.group "letters"]], []⟩] "marks" "acute",
      Compilation.kerning "kern" [("a", "a")]]

/-- A font with names of its own for the letter and the mark. -/
def unicodeNames : GlyphOrder :=
  ⟨#[".notdef", "uni0061", "uni0301"]⟩

theorem convert_namedByFont_iff_accentedLetter :
    ∃ log document, convert accentedLetter (some unicodeNames) {} = ⟨log, .ok document⟩
      ∧ document.glyphClasses = [⟨"letters", [.glyph "uni0061"]⟩]
      ∧ (document.lookups.flatMap fun block => block.rules.map Feature.Rule.glyphNames) =
          [["uni0061"], ["uni0301"], ["uni0301"], ["uni0061", "uni0061"]]
      ∧ (∀ placed ∈ (placedGroups accentedLetter).values,
          ∀ name ∈ Reading.mentions.items placed.group.members,
          ∀ id, glyphIds accentedLetter name = [id] →
            glyphIds placed.before name = [id] ∨ unicodeNames.get? id = some name)
      ∧ NamedByFont unicodeNames accentedLetter document := by
  have classes : (convert accentedLetter (some unicodeNames) {}).result.toOption.map
      Document.glyphClasses = some [⟨"letters", [.glyph "uni0061"]⟩] := by
    decide +kernel
  have names : (convert accentedLetter (some unicodeNames) {}).result.toOption.map (fun document =>
      document.lookups.flatMap fun block => block.rules.map Feature.Rule.glyphNames) =
        some [["uni0061"], ["uni0301"], ["uni0301"], ["uni0061", "uni0061"]] := by
    decide +kernel
  have inFront : ∀ placed ∈ (placedGroups accentedLetter).values,
      ∀ name ∈ Reading.mentions.items placed.group.members,
        glyphIds placed.before name = glyphIds accentedLetter name := by
    decide +kernel
  obtain ⟨log, document, converted⟩ : ∃ log document,
      convert accentedLetter (some unicodeNames) {} = ⟨log, .ok document⟩ :=
    Outcome.exists_of_isOk (by decide +kernel)
  simp only [converted, Except.toOption, Option.map_some, Option.some.injEq] at classes names
  have defined : ∀ placed ∈ (placedGroups accentedLetter).values,
      ∀ name ∈ Reading.mentions.items placed.group.members,
      ∀ id, glyphIds accentedLetter name = [id] →
        glyphIds placed.before name = [id] ∨ unicodeNames.get? id = some name :=
    fun placed member name mentioned id once =>
      .inl ((inFront placed member name mentioned).trans once)
  exact ⟨log, document, converted, classes, names, defined,
    (convert_namedByFont_iff converted).mpr defined⟩

/-- A glyph that is defined behind a group keeps the name of the project in its class. -/
theorem exists_not_namedByFont :
    ¬ ∀ (statements : List Statement) (order : GlyphOrder) (options : Options)
      (log : List Notice) (document : Document),
      convert statements (some order) options = ⟨log, .ok document⟩ →
        NamedByFont order statements document := by
  intro always
  have classes : (convert [letters, letterA] (some unicodeNames) {}).result.toOption.map
      Document.glyphClasses = some [⟨"letters", [.glyph "a"]⟩] := by
    decide +kernel
  obtain ⟨log, document, converted⟩ : ∃ log document,
      convert [letters, letterA] (some unicodeNames) {} = ⟨log, .ok document⟩ :=
    Outcome.exists_of_isOk (by decide +kernel)
  simp only [converted, Except.toOption, Option.map_some, Option.some.injEq] at classes
  have named := (always _ unicodeNames {} log document converted).classes
  rw [classes] at named
  obtain ⟨⟨naming, follows, same⟩, _⟩ := List.forall₂_cons.mp named
  -- The one member of the class would have to be called as in the font.
  have inFont : unicodeNames.get? 1 = some (naming "a") := follows "a" 1 (by decide)
  have kept : ["a"] = [naming "a"] := same
  rw [← List.singleton_inj.mp kept] at inFont
  exact absurd inFont (by decide)

end GlyphLayout
