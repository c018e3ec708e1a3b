import GlyphLayout.Definitions.Coverage
import GlyphLayout.Proofs.Outcome

/-!
# Leaves of references

A class that is written out in place may hold glyphs and named classes, and a coverage may nest
lists of items.  Read from left to right, the reference that a coverage is resolved into has the
same leaves as the coverage: a glyph by its name, a group by its class, and a range by the names
of its ids.
-/

namespace GlyphLayout

namespace Feature
namespace Glyphs

mutual

/-- The glyphs and the named classes of a reference, from left to right. -/
def leaves : Glyphs → List Glyphs
  | glyph name => [glyph name]
  | named className => [named className]
  | inline members => leavesOf members

/-- The glyphs and the named classes of some references, from left to right. -/
def leavesOf : List Glyphs → List Glyphs
  | [] => []
  | item :: rest => item.leaves ++ leavesOf rest

end

theorem leavesOf_eq_flatMap (items : List Glyphs) : leavesOf items = items.flatMap leaves := by
  induction items with
  | nil => rfl
  | cons item rest ih => rw [leavesOf, ih, List.flatMap_cons]

@[simp] theorem leavesOf_append (first second : List Glyphs) :
    leavesOf (first ++ second) = leavesOf first ++ leavesOf second := by
  simp only [leavesOf_eq_flatMap, List.flatMap_append]

@[simp] theorem leavesOf_parts (item : Glyphs) : leavesOf item.parts = item.leaves := by
  cases item <;> simp [parts, leavesOf, leaves]

@[simp] theorem leavesOf_flatMap_parts (items : List Glyphs) :
    leavesOf (items.flatMap parts) = leavesOf items := by
  induction items with
  | nil => rfl
  | cons item rest ih => simp [leavesOf, ih]

/-- To flatten references keeps the leaves and their order. -/
@[simp] theorem leaves_flatten (items : List Glyphs) : (flatten items).leaves = leavesOf items := by
  simp [flatten, leaves]

/-- To collapse references keeps the leaves and their order. -/
@[simp] theorem leaves_collapse (items : List Glyphs) : (collapse items).leaves = leavesOf items := by
  match items with
  | [] => simp [collapse]
  | [item] => simp [collapse, leavesOf]
  | first :: second :: rest => simp [collapse]

@[simp] theorem leavesOf_map_glyph (names : List String) :
    leavesOf (names.map glyph) = names.map glyph := by
  induction names with
  | nil => rfl
  | cons name rest ih => simp [leavesOf, leaves, ih]

/-- The name of a single glyph. -/
def glyphName? : Glyphs → Option String
  | glyph name => some name
  | _ => none

/-- The names of the glyphs in some references, from left to right. -/
def glyphNamesOf (items : List Glyphs) : List String :=
  (leavesOf items).filterMap glyphName?

@[simp] theorem glyphNamesOf_nil : glyphNamesOf [] = [] := rfl

@[simp] theorem glyphNamesOf_append (first second : List Glyphs) :
    glyphNamesOf (first ++ second) = glyphNamesOf first ++ glyphNamesOf second := by
  simp [glyphNamesOf]

@[simp] theorem glyphNamesOf_singleton_glyph (name : String) : glyphNamesOf [glyph name] = [name] :=
  rfl

@[simp] theorem glyphNamesOf_map_glyph (names : List String) :
    glyphNamesOf (names.map glyph) = names := by
  have picked : glyphName? ∘ glyph = some := rfl
  rw [glyphNamesOf, leavesOf_map_glyph, List.filterMap_map, picked, List.filterMap_some]

end Glyphs
end Feature

/-! ## Readings of coverages -/

namespace Source

/-- What each sort of coverage item is read as. -/
structure Reading (α : Type) where
  glyph : String → List α
  group : String → List α
  range : String → String → List α

namespace Reading

variable {α β : Type}

mutual

/-- What a coverage item is read as. -/
def item (reading : Reading α) : CoverageItem → List α
  | .glyph name => reading.glyph name
  | .group name => reading.group name
  | .enumeration members => reading.items members
  | .range first last => reading.range first last

/-- What the items of a coverage are read as, one after the other. -/
def items (reading : Reading α) : List CoverageItem → List α
  | [] => []
  | head :: rest => reading.item head ++ reading.items rest

end

/-- What is left of a reading when its parts are picked out. -/
def filterMap (reading : Reading α) (pick : α → Option β) : Reading β where
  glyph name := (reading.glyph name).filterMap pick
  group name := (reading.group name).filterMap pick
  range first last := (reading.range first last).filterMap pick

mutual

theorem item_filterMap (reading : Reading α) (pick : α → Option β) (member : CoverageItem) :
    (reading.filterMap pick).item member = (reading.item member).filterMap pick := by
  match member with
  | .glyph name => simp [item, filterMap]
  | .group name => simp [item, filterMap]
  | .enumeration members => simp [item, items_filterMap reading pick members]
  | .range first last => simp [item, filterMap]

/-- To pick from what is read is to read what is picked, at any depth. -/
theorem items_filterMap
    (reading : Reading α)
    (pick : α → Option β)
    (members : List CoverageItem) :
    (reading.filterMap pick).items members = (reading.items members).filterMap pick := by
  match members with
  | [] => simp [items]
  | head :: rest => simp [items, item_filterMap reading pick head, items_filterMap reading pick rest]

end

/-- The glyphs that are mentioned by their names. -/
def mentions : Reading String :=
  ⟨fun name => [name], fun _ => [], fun _ _ => []⟩

/-- Glyphs under other names, and ranges as glyphs. -/
def names (naming : String → String) (range : String → String → List String) : Reading String :=
  ⟨fun name => [naming name], fun _ => [], range⟩

mutual

/-- A naming does not change how many names an item is read as. -/
theorem length_item_names
    (first second : String → String)
    (range : String → String → List String)
    (member : CoverageItem) :
    ((names first range).item member).length = ((names second range).item member).length := by
  match member with
  | .glyph name => simp [item, names]
  | .group name => simp [item, names]
  | .enumeration members => simp [item, length_items_names first second range members]
  | .range start stop => simp [item, names]

/-- However glyphs are named, a coverage has as many of them. -/
theorem length_items_names
    (first second : String → String)
    (range : String → String → List String)
    (members : List CoverageItem) :
    ((names first range).items members).length =
      ((names second range).items members).length := by
  match members with
  | [] => simp [items]
  | head :: rest =>
      simp [items, length_item_names first second range head,
        length_items_names first second range rest]

end

mutual

/-- Two namings agree on an item exactly if they do on each glyph that it mentions. -/
theorem item_names_eq_iff
    {first second : String → String}
    {range : String → String → List String}
    {member : CoverageItem} :
    (names first range).item member = (names second range).item member ↔
      ∀ name ∈ mentions.item member, first name = second name := by
  match member with
  | .glyph name => simp [item, names, mentions]
  | .group name => simp [item, names, mentions]
  | .enumeration members => simpa only [item] using items_names_eq_iff
  | .range start stop => simp [item, names, mentions]

theorem items_names_eq_iff
    {first second : String → String}
    {range : String → String → List String}
    {members : List CoverageItem} :
    (names first range).items members = (names second range).items members ↔
      ∀ name ∈ mentions.items members, first name = second name := by
  match members with
  | [] => simp [items]
  | head :: rest =>
      simp only [items, List.forall_mem_append]
      rw [← @item_names_eq_iff _ _ range head, ← @items_names_eq_iff _ _ range rest]
      refine ⟨fun same => List.append_inj same (length_item_names ..), fun both => ?_⟩
      rw [both.1, both.2]

end

end Reading
end Source

/-! ## Resolving -/

namespace Definitions

open Feature (Glyphs)
open Source (CoverageItem Location)

/-- The names in the glyph order from one glyph up to another. -/
def namesBetween (definitions : Definitions) (first last : String) : List String :=
  match definitions.glyphOrder, definitions.glyphs.get? first, definitions.glyphs.get? last with
  | some order, some start, some stop => (idsBetween start.id stop.id).filterMap order.get?
  | _, _, _ => []

/-- What the items of a coverage stand for in a feature file. -/
def references (definitions : Definitions) : Source.Reading Glyphs where
  glyph name := [.glyph (definitions.outputName name)]
  group name :=
    (definitions.groups.get? (Text.lowercase name)).toList.map fun group => .named group.className
  range first last := (definitions.namesBetween first last).map .glyph

/-- What the glyph order has at each id from one glyph up to another; a single gap if it is not
known which ids these are. -/
def entriesBetween (definitions : Definitions) (first last : String) : List (Option String) :=
  match definitions.glyphOrder, definitions.glyphs.get? first, definitions.glyphs.get? last with
  | some order, some start, some stop => (idsBetween start.id stop.id).map order.get?
  | _, _, _ => [none]

/-- What the items of a coverage stand for in a feature file, with a gap for whatever is not
known. -/
def entries (definitions : Definitions) : Source.Reading (Option Glyphs) where
  glyph name := [some (.glyph (definitions.outputName name))]
  group name :=
    [(definitions.groups.get? (Text.lowercase name)).map fun group => .named group.className]
  range first last := (definitions.entriesBetween first last).map (Option.map .glyph)

/-- What the items of a coverage stand for is what is left without the gaps. -/
theorem filterMap_entries (definitions : Definitions) :
    definitions.entries.filterMap id = definitions.references := by
  have group (name : String) :
      (definitions.entries.group name).filterMap id = definitions.references.group name := by
    cases found : definitions.groups.get? (Text.lowercase name) <;>
      simp [entries, references, found]
  have range (first last : String) :
      (definitions.entries.range first last).filterMap id =
        definitions.references.range first last := by
    simp only [entries, references, entriesBetween, namesBetween]
    split <;> simp [List.filterMap_map, List.map_filterMap]
  simp only [Source.Reading.filterMap, group, range]
  rfl

variable {definitions : Definitions} {location : Location}

/-- Each item of a coverage is resolved on its own. -/
theorem forall₂_of_resolve
    {items : List CoverageItem}
    {references : List Glyphs}
    (resolved : definitions.resolve location items = .ok references) :
    List.Forall₂ (fun item reference => definitions.resolveItem location item = .ok reference)
      items references := by
  induction items generalizing references with
  | nil =>
      cases resolved
      exact .nil
  | cons item rest ih =>
      obtain ⟨first, head, result⟩ := except_bind_eq_ok_iff.mp resolved
      obtain ⟨others, tail, result⟩ := except_bind_eq_ok_iff.mp result
      cases result
      exact .cons head (ih tail)

theorem orderForRange_eq_ok_iff {first : String} {order : GlyphOrder} :
    definitions.orderForRange first location = .ok order ↔ definitions.glyphOrder = some order := by
  unfold orderForRange
  split <;> rename_i given <;> simp [given]

theorem rangeEnd_eq_ok_iff {name : String} {id : UInt16} :
    definitions.rangeEnd name location = .ok id ↔
      (definitions.glyphs.get? name).map GlyphEntry.id = some id := by
  unfold rangeEnd
  split <;> rename_i given <;> simp [given]

/-- A name in a range is the one that the glyph order gives. -/
theorem order_of_nameInRange
    {first name : String}
    {id : UInt16}
    {order : GlyphOrder}
    (given : definitions.glyphOrder = some order)
    (named : definitions.nameInRange first location id = .ok name) :
    order.get? id = some name := by
  obtain ⟨_, found, named⟩ := except_bind_eq_ok_iff.mp named
  obtain rfl := Option.some.inj ((orderForRange_eq_ok_iff.mp found).symm.trans given)
  split at named
  · rename_i found
    cases named
    exact found
  · cases named

/-- The ids of a range run between the ids of two glyphs that are defined. -/
theorem exists_of_rangeIds
    {first last : String}
    {ids : List UInt16}
    (ranged : definitions.rangeIds first last location = .ok ids) :
    ∃ order start stop,
      definitions.glyphOrder = some order
        ∧ definitions.glyphs.get? first = some start
        ∧ definitions.glyphs.get? last = some stop
        ∧ ids = idsBetween start.id stop.id := by
  obtain ⟨order, given, ranged⟩ := except_bind_eq_ok_iff.mp ranged
  obtain ⟨_, startKnown, ranged⟩ := except_bind_eq_ok_iff.mp ranged
  obtain ⟨_, stopKnown, ranged⟩ := except_bind_eq_ok_iff.mp ranged
  cases ranged
  obtain ⟨start, startFound, rfl⟩ := Option.map_eq_some_iff.mp (rangeEnd_eq_ok_iff.mp startKnown)
  obtain ⟨stop, stopFound, rfl⟩ := Option.map_eq_some_iff.mp (rangeEnd_eq_ok_iff.mp stopKnown)
  exact ⟨order, start, stop, orderForRange_eq_ok_iff.mp given, startFound, stopFound, rfl⟩

/-- Naming the ids of a range gives the names of the glyph order, without a gap. -/
theorem names_of_rangeIds
    {first last : String}
    {ids : List UInt16}
    {names : List String}
    (ranged : definitions.rangeIds first last location = .ok ids)
    (named : ids.mapM (definitions.nameInRange first location) = .ok names) :
    names.map some = definitions.entriesBetween first last := by
  obtain ⟨order, start, stop, given, startFound, stopFound, rfl⟩ := exists_of_rangeIds ranged
  simp only [entriesBetween, given, startFound, stopFound]
  generalize idsBetween start.id stop.id = ids at named
  have each := except_mapM_eq_ok_iff.mp named
  clear named
  induction each with
  | nil => rfl
  | cons head _ ih => rw [List.map_cons, List.map_cons, order_of_nameInRange given head, ← ih]

mutual

/-- The leaves of the reference for an item are what the item stands for, without a gap. -/
theorem some_leaves_resolveItem
    {item : CoverageItem}
    {glyphs : Glyphs}
    (resolved : definitions.resolveItem location item = .ok glyphs) :
    glyphs.leaves.map some = definitions.entries.item item := by
  match item with
  | .glyph name =>
      cases resolved
      rfl
  | .group name =>
      obtain ⟨group, found, result⟩ := except_bind_eq_ok_iff.mp resolved
      cases result
      unfold Definitions.group at found
      split at found
      · rename_i present
        cases found
        simp [Glyphs.leaves, Source.Reading.item, entries, present]
      · cases found
  | .enumeration items =>
      obtain ⟨inner, each, result⟩ := except_bind_eq_ok_iff.mp resolved
      cases result
      rw [Glyphs.leaves_flatten]
      exact some_leavesOf_resolve each
  | .range first last =>
      obtain ⟨ids, ranged, result⟩ := except_bind_eq_ok_iff.mp resolved
      obtain ⟨names, named, result⟩ := except_bind_eq_ok_iff.mp result
      cases result
      simp only [Glyphs.leaves, Glyphs.leavesOf_map_glyph, Source.Reading.item, entries,
        ← names_of_rangeIds ranged named, List.map_map, Function.comp_def, Option.map_some]

/-- The leaves of the references for a coverage are what its items stand for, without a gap. -/
theorem some_leavesOf_resolve
    {items : List CoverageItem}
    {glyphs : List Glyphs}
    (resolved : definitions.resolve location items = .ok glyphs) :
    (Glyphs.leavesOf glyphs).map some = definitions.entries.items items := by
  match items with
  | [] =>
      cases resolved
      rfl
  | item :: rest =>
      obtain ⟨first, head, result⟩ := except_bind_eq_ok_iff.mp resolved
      obtain ⟨others, tail, result⟩ := except_bind_eq_ok_iff.mp result
      cases result
      rw [Glyphs.leavesOf, List.map_append, some_leaves_resolveItem head,
        some_leavesOf_resolve tail]
      rfl

end

/-- The leaves of the references for a coverage are what its items stand for. -/
theorem leavesOf_resolve
    {items : List CoverageItem}
    {glyphs : List Glyphs}
    (resolved : definitions.resolve location items = .ok glyphs) :
    Glyphs.leavesOf glyphs = definitions.references.items items := by
  rw [← filterMap_entries, Source.Reading.items_filterMap, ← some_leavesOf_resolve resolved]
  simp

/-- The leaves of several coverages come in the order of the coverages. -/
theorem leavesOf_resolveSequence
    {coverages : List Source.Coverage}
    {glyphs : List Glyphs}
    (resolved : definitions.resolveSequence location coverages = .ok glyphs) :
    Glyphs.leavesOf glyphs = coverages.flatMap definitions.references.items := by
  obtain ⟨parts, each, result⟩ := except_bind_eq_ok_iff.mp resolved
  cases result
  have related := except_mapM_eq_ok_iff.mp each
  clear resolved each
  induction related with
  | nil => rfl
  | cons head _ ih =>
      rw [List.flatten_cons, Glyphs.leavesOf_append, ih, leavesOf_resolve head, List.flatMap_cons]

theorem leaves_resolveCollapsed
    {coverage : Source.Coverage}
    {glyphs : Glyphs}
    (resolved : definitions.resolveCollapsed location coverage = .ok glyphs) :
    glyphs.leaves = definitions.references.items coverage := by
  obtain ⟨parts, each, result⟩ := except_bind_eq_ok_iff.mp resolved
  cases result
  rw [Glyphs.leaves_collapse, leavesOf_resolve each]

end Definitions
end GlyphLayout
