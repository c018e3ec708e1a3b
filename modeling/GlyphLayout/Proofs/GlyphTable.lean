import GlyphLayout.Conversion
import GlyphLayout.Proofs.Collecting

/-!
# The table of glyphs

Definitions of glyphs fill a table, and nothing else does.  The last definition of a name is the
one that is found, the first name of an id is the one that is kept, and each kind of glyph has
its glyphs in the order of their definitions.
-/

namespace GlyphLayout
namespace Definitions

open Source (GlyphDefinition Statement)

/-- The glyph that a statement defines. -/
def glyph? : Statement → Option GlyphDefinition
  | .glyph glyph => some glyph
  | _ => none

/-- The glyphs that some statements define, in order. -/
def definedGlyphs (statements : List Statement) : List GlyphDefinition :=
  statements.filterMap glyph?

theorem mem_definedGlyphs_iff {glyph : GlyphDefinition} {statements : List Statement} :
    glyph ∈ definedGlyphs statements ↔ .glyph glyph ∈ statements := by
  rw [definedGlyphs, List.mem_filterMap]
  constructor
  · rintro ⟨statement, present, found⟩
    cases statement with
    | glyph other => exact Option.some.inj found ▸ present
    | _ => cases found
  · exact fun present => ⟨_, present, rfl⟩

/-- What a statement does to the table of glyphs. -/
inductive GlyphStep (definitions : Definitions) : Statement → Definitions → Prop
  | glyph
      {glyph : GlyphDefinition} {outputName : String} {next : Definitions}
      (named : definitions.nameFor glyph = .ok outputName)
      (glyphOrder : next.glyphOrder = definitions.glyphOrder)
      (glyphs : next.glyphs = definitions.glyphs.insert glyph.name ⟨glyph.id, outputName⟩)
      (namesById : next.namesById =
        if definitions.namesById.contains glyph.id then definitions.namesById
        else definitions.namesById.insert glyph.id glyph.name)
      (glyphClasses : next.glyphClasses =
        (definitions.classify glyph (.glyph outputName)).glyphClasses) :
      GlyphStep definitions (.glyph glyph) next
  | other
      {statement : Statement} {next : Definitions}
      (noGlyph : glyph? statement = none)
      (glyphOrder : next.glyphOrder = definitions.glyphOrder)
      (glyphs : next.glyphs = definitions.glyphs)
      (namesById : next.namesById = definitions.namesById)
      (glyphClasses : next.glyphClasses = definitions.glyphClasses) :
      GlyphStep definitions statement next

/-- What a statement does to the glyphs, be it the definition of one or not. -/
theorem glyphStep_of_add
    {definitions next : Definitions}
    {statement : Statement}
    {log : List Notice}
    (added : definitions.add statement = ⟨log, .ok next⟩) :
    GlyphStep definitions statement next := by
  cases addStep_of_add added with
  | glyph named => exact .glyph named rfl rfl rfl rfl
  | group | script | markAnchor | baseAnchor | setting | lookup =>
      exact .other rfl rfl rfl rfl rfl

/-- No statement changes the glyph order. -/
theorem GlyphStep.glyphOrder_eq
    {definitions next : Definitions}
    {statement : Statement}
    (step : GlyphStep definitions statement next) :
    next.glyphOrder = definitions.glyphOrder := by
  cases step with
  | glyph _ glyphOrder => exact glyphOrder
  | other _ glyphOrder => exact glyphOrder

/-- The glyph order that a conversion starts with is there to the end. -/
theorem glyphOrder_of_collect
    {statements : List Statement}
    {glyphOrder : Option GlyphOrder}
    {definitions : Definitions}
    {log : List Notice}
    (collected : collect statements glyphOrder = ⟨log, .ok definitions⟩) :
    definitions.glyphOrder = glyphOrder := by
  let invariant (_ : List Statement) (definitions : Definitions) : Prop :=
    definitions.glyphOrder = glyphOrder
  have step (done : List Statement) (statement : Statement) (before after : Definitions)
      (part : List Notice) (same : invariant done before)
      (added : before.add statement = ⟨part, .ok after⟩) :
      invariant (done ++ [statement]) after :=
    (glyphStep_of_add added).glyphOrder_eq.trans same
  exact collect_induction_add rfl step collected

/-! ## Names in the font -/

/-- The ids under which some statements define a glyph of the given name, in order. -/
def glyphIds (statements : List Statement) (name : String) : List UInt16 :=
  ((definedGlyphs statements).filter fun glyph => glyph.name = name).map GlyphDefinition.id

/--
The name of a glyph in the font: that of the id in its last definition.  A glyph that is not
defined keeps its name.
-/
def fontName (order : GlyphOrder) (statements : List Statement) (name : String) : String :=
  ((glyphIds statements name).getLast?.bind order.get?).getD name

/-- The names in the font from the id of one glyph up to the id of another. -/
def rangeNames (order : GlyphOrder) (statements : List Statement) (first last : String) :
    List String :=
  match (glyphIds statements first).getLast?, (glyphIds statements last).getLast? with
  | some start, some stop => (idsBetween start stop).filterMap order.get?
  | _, _ => []

/-- The ids given to a name come in the order of the statements. -/
theorem glyphIds_snoc
    (statements : List Statement)
    (statement : Statement)
    (name : String) :
    glyphIds (statements ++ [statement]) name =
      glyphIds statements name ++ glyphIds [statement] name := by
  simp [glyphIds, definedGlyphs]

theorem glyphIds_singleton (glyph : GlyphDefinition) (name : String) :
    glyphIds [.glyph glyph] name = if glyph.name = name then [glyph.id] else [] := by
  by_cases same : glyph.name = name <;> simp [glyphIds, definedGlyphs, glyph?, same]

theorem glyphIds_of_noGlyph
    {statement : Statement}
    (noGlyph : glyph? statement = none)
    (name : String) :
    glyphIds [statement] name = [] := by
  simp [glyphIds, definedGlyphs, noGlyph]

/-- The glyphs of one kind in the table of a feature file. -/
def slot (kind : Source.GlyphKind) (classes : Feature.GlyphDefinitions) : List Feature.Glyphs :=
  match kind with
  | .base => classes.base
  | .ligature => classes.ligature
  | .mark => classes.mark
  | .component => classes.component

/-- A glyph joins the class of its kind, behind those that are there, and no other class. -/
theorem slot_classify
    (definitions : Definitions)
    (glyph : GlyphDefinition)
    (written : Feature.Glyphs)
    (kind : Source.GlyphKind) :
    slot kind (definitions.classify glyph written).glyphClasses =
      slot kind definitions.glyphClasses
        ++ if glyph.kind = some kind then [written] else [] := by
  unfold classify
  rcases glyph.kind with _ | given
  · simp
  · cases given <;> cases kind <;> simp [slot]

/-- The glyphs that some statements define to be of a kind, in order. -/
def glyphsOfKind (statements : List Statement) (kind : Source.GlyphKind) :
    List GlyphDefinition :=
  (definedGlyphs statements).filter (·.kind = some kind)

/-- The glyphs of a kind come in the order of the statements. -/
theorem glyphsOfKind_snoc
    (statements : List Statement)
    (statement : Statement)
    (kind : Source.GlyphKind) :
    glyphsOfKind (statements ++ [statement]) kind =
      glyphsOfKind statements kind ++ glyphsOfKind [statement] kind := by
  simp [glyphsOfKind, definedGlyphs]

theorem glyphsOfKind_singleton (glyph : GlyphDefinition) (kind : Source.GlyphKind) :
    glyphsOfKind [.glyph glyph] kind = if glyph.kind = some kind then [glyph] else [] := by
  by_cases same : glyph.kind = some kind <;> simp [glyphsOfKind, definedGlyphs, glyph?, same]

theorem glyphsOfKind_of_noGlyph
    {statement : Statement}
    (noGlyph : glyph? statement = none)
    (kind : Source.GlyphKind) :
    glyphsOfKind [statement] kind = [] := by
  simp [glyphsOfKind, definedGlyphs, noGlyph]

/-- The reference is the name that the glyph order gives to the id of the glyph. -/
def IsNamed (order : GlyphOrder) (glyph : GlyphDefinition) (written : Feature.Glyphs) : Prop :=
  (order.get? glyph.id).map Feature.Glyphs.glyph = some written

/-- What is known of the table after some statements, for a font with a glyph order. -/
structure GlyphsNamed (order : GlyphOrder) (statements : List Statement)
    (definitions : Definitions) : Prop where
  glyphOrder : definitions.glyphOrder = some order
  id_eq : ∀ name,
    (definitions.glyphs.get? name).map GlyphEntry.id = (glyphIds statements name).getLast?
  named : ∀ name entry, definitions.glyphs.get? name = some entry →
    order.get? entry.id = some entry.outputName
  slots : ∀ kind, List.Forall₂ (IsNamed order) (glyphsOfKind statements kind)
    (slot kind definitions.glyphClasses)

theorem glyphsNamed_nil (order : GlyphOrder) :
    GlyphsNamed order [] { glyphOrder := some order } where
  glyphOrder := rfl
  id_eq name := rfl
  named := nofun
  slots kind := by cases kind <;> exact .nil

variable {order : GlyphOrder} {statements : List Statement} {definitions : Definitions}

/-- With a glyph order, the name of a glyph is the one that the order gives to its id. -/
theorem GlyphsNamed.order_of_nameFor
    {glyph : GlyphDefinition}
    {outputName : String}
    (known : GlyphsNamed order statements definitions)
    (named : definitions.nameFor glyph = .ok outputName) :
    order.get? glyph.id = some outputName := by
  rw [nameFor, known.glyphOrder] at named
  dsimp only at named
  split at named
  · rename_i found
    cases named
    exact found
  · cases named

/-- One more statement keeps the table of glyphs in step with the statements. -/
theorem GlyphsNamed.step
    {statement : Statement}
    {next : Definitions}
    (known : GlyphsNamed order statements definitions)
    (step : GlyphStep definitions statement next) :
    GlyphsNamed order (statements ++ [statement]) next := by
  cases step with
  | @glyph glyph outputName _ named glyphOrder glyphs namesById glyphClasses =>
      have inFont := known.order_of_nameFor named
      constructor
      case glyphOrder => rw [glyphOrder, known.glyphOrder]
      case id_eq =>
        intro name
        rw [glyphIds_snoc, glyphIds_singleton, glyphs, OrderedMap.get?_insert]
        by_cases same : name = glyph.name
        · simp [same]
        · rw [if_neg same, if_neg (Ne.symm same), List.append_nil, known.id_eq]
      case named =>
        intro name entry found
        rw [glyphs, OrderedMap.get?_insert] at found
        split at found
        · cases found
          exact inFont
        · exact known.named name entry found
      case slots =>
        intro kind
        rw [glyphClasses, slot_classify, glyphsOfKind_snoc, glyphsOfKind_singleton]
        refine List.rel_append (known.slots kind) ?_
        split
        · exact .cons (by rw [IsNamed, inFont]; rfl) .nil
        · exact .nil
  | other noGlyph glyphOrder glyphs namesById glyphClasses =>
      constructor
      case glyphOrder => rw [glyphOrder, known.glyphOrder]
      case id_eq =>
        intro name
        rw [glyphIds_snoc, glyphIds_of_noGlyph noGlyph, List.append_nil, glyphs, known.id_eq]
      case named => exact glyphs ▸ known.named
      case slots =>
        intro kind
        rw [glyphsOfKind_snoc, glyphsOfKind_of_noGlyph noGlyph, List.append_nil, glyphClasses]
        exact known.slots kind

/-- In the end the table has all glyphs that the statements define. -/
theorem glyphsNamed_of_collect
    {log : List Notice}
    (collected : collect statements (some order) = ⟨log, .ok definitions⟩) :
    GlyphsNamed order statements definitions :=
  collect_induction_add (glyphsNamed_nil order)
    (fun _ _ _ _ _ known added => known.step (glyphStep_of_add added)) collected

namespace GlyphsNamed

variable (known : GlyphsNamed order statements definitions)

include known

/-- A glyph is written by its name in the font. -/
theorem outputName_eq (name : String) :
    definitions.outputName name = fontName order statements name := by
  rw [outputName, fontName, ← known.id_eq]
  cases found : definitions.glyphs.get? name with
  | none => rfl
  | some entry => simp [known.named name entry found]

end GlyphsNamed

end Definitions

/-! ## Conversions -/

/-- The table of glyph classes of a converted project. -/
theorem definitions_of_convert
    {statements : List Source.Statement}
    {glyphOrder : Option GlyphOrder}
    {options : Options}
    {log : List Notice}
    {document : Feature.Document}
    (converted : convert statements glyphOrder options = ⟨log, .ok document⟩) :
    ∃ collecting definitions,
      Definitions.collect statements glyphOrder = ⟨collecting, .ok definitions⟩
        ∧ document.definitions.getD {} = definitions.glyphClasses := by
  obtain ⟨collecting, definitions, _, collected, rest, _⟩ := Outcome.bind_eq_ok_iff.mp converted
  obtain ⟨_, state, _, _, rest, _⟩ := Outcome.bind_eq_ok_iff.mp rest
  obtain ⟨_, merged, _, _, rest, _⟩ := Outcome.bind_eq_ok_iff.mp rest
  obtain ⟨_, _, _, _, same, _⟩ := Outcome.bind_eq_ok_iff.mp rest
  cases same
  refine ⟨collecting, definitions, collected, ?_⟩
  dsimp only
  obtain ⟨base, ligature, mark, component⟩ := definitions.glyphClasses
  split
  · rename_i empty
    simp only [Feature.GlyphDefinitions.isEmpty, Bool.and_eq_true, List.isEmpty_iff] at empty
    obtain ⟨⟨⟨rfl, rfl⟩, rfl⟩, rfl⟩ := empty
    rfl
  · rfl

end GlyphLayout
