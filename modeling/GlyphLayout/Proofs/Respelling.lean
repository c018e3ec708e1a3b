import GlyphLayout.Source.Statement
import GlyphLayout.Text.Lowercase
import Mathlib.Logic.Function.Basic

/-!
# Spellings of references

A project refers to its groups and lookups by name.  The same project has many spellings: the
references may be spelled in any way while the definitions keep their names.
-/

namespace GlyphLayout
namespace Source

/-! ## Spelling references anew -/

section

variable (spell : String → String)

mutual

/-- The item with its references to groups in another spelling. -/
def CoverageItem.respell : CoverageItem → CoverageItem
  | .glyph name => .glyph name
  | .group name => .group (spell name)
  | .enumeration items => .enumeration (Coverage.respell items)
  | .range first last => .range first last

/-- The coverage with its references to groups in another spelling, at any depth. -/
def Coverage.respell : List CoverageItem → List CoverageItem
  | [] => []
  | item :: rest => item.respell :: Coverage.respell rest

end

/-- The definition of a group with its references in another spelling. -/
def GroupDefinition.respell (group : GroupDefinition) : GroupDefinition :=
  { group with members := Coverage.respell spell group.members }

/-- The definition of a feature with its references to lookups in another spelling. -/
def FeatureDefinition.respell (feature : FeatureDefinition) : FeatureDefinition :=
  { feature with lookups := feature.lookups.map spell }

/-- The language with the references of its features in another spelling. -/
def LanguageDefinition.respell (language : LanguageDefinition) : LanguageDefinition :=
  { language with features := language.features.map (FeatureDefinition.respell spell) }

/-- The script with the references of its features in another spelling. -/
def ScriptDefinition.respell (script : ScriptDefinition) : ScriptDefinition :=
  { script with languages := script.languages.map (LanguageDefinition.respell spell) }

/-- The marks that a lookup sees, with the reference to their group in another spelling. -/
def MarkFilter.respell : MarkFilter → MarkFilter
  | .all => .all
  | .none => .none
  | .attachment group => .attachment (spell group)
  | .filterSet group => .filterSet (spell group)

/-- The context with its references in another spelling. -/
def ContextDefinition.respell (context : ContextDefinition) : ContextDefinition :=
  { context with
    left := context.left.map (Coverage.respell spell)
    right := context.right.map (Coverage.respell spell) }

/-- The mapping with its references in another spelling. -/
def Mapping.respell (mapping : Mapping) : Mapping :=
  { mapping with
    input := Coverage.respell spell mapping.input
    output := Coverage.respell spell mapping.output }

/-- The substitution with its references in another spelling. -/
def Substitution.respell (substitution : Substitution) : Substitution :=
  { substitution with mappings := substitution.mappings.map (Mapping.respell spell) }

/-- The positioning with its references in another spelling. -/
def Positioning.respell : Positioning → Positioning
  | .pairs firsts seconds adjustments =>
      .pairs (firsts.map (Coverage.respell spell)) (seconds.map (Coverage.respell spell))
        adjustments
  | .singles adjustments => .singles (adjustments.map (Prod.map (Coverage.respell spell) id))
  | .attach bases marks =>
      .attach (Coverage.respell spell bases) (marks.map (Prod.map (Coverage.respell spell) id))
  | .cursive exits entries =>
      .cursive (exits.map (Coverage.respell spell)) (entries.map (Coverage.respell spell))

/-- What a lookup does, with the references in another spelling. -/
def Payload.respell : Payload → Payload
  | .substitution rules => .substitution (rules.respell spell)
  | .positioning rules => .positioning (rules.respell spell)

/-- The lookup with its references in another spelling. -/
def LookupDefinition.respell (lookup : LookupDefinition) : LookupDefinition :=
  { lookup with
    marks := lookup.marks.respell spell
    contexts := lookup.contexts.map (ContextDefinition.respell spell)
    payload := lookup.payload.respell spell }

/-- The statement with its references to groups and lookups in another spelling. -/
def Statement.respell : Statement → Statement
  | .glyph definition => .glyph definition
  | .group definition => .group (definition.respell spell)
  | .script definition => .script (definition.respell spell)
  | .lookup definition => .lookup (definition.respell spell)
  | .anchor definition => .anchor definition
  | .setting definition => .setting definition

end

/-- The projects are the same but for upper and lower case in their references. -/
def SameButForCase (statements others : List Statement) : Prop :=
  statements.map (Statement.respell Text.lowercase) =
    others.map (Statement.respell Text.lowercase)

/-! ## The same spelling -/

mutual

/-- An item whose references keep their spelling is the same item. -/
theorem CoverageItem.respell_id (item : CoverageItem) : item.respell id = item := by
  match item with
  | .glyph name => simp only [CoverageItem.respell]
  | .group name => simp only [CoverageItem.respell, id_eq]
  | .enumeration items =>
      simp only [CoverageItem.respell]
      rw [Coverage.respell_id items]
  | .range start stop => simp only [CoverageItem.respell]

theorem Coverage.respell_id (items : List CoverageItem) : Coverage.respell id items = items := by
  match items with
  | [] => simp only [Coverage.respell]
  | item :: rest =>
      simp only [Coverage.respell]
      rw [CoverageItem.respell_id item, Coverage.respell_id rest]

end

@[simp] theorem Coverage.respell_id_eq : Coverage.respell id = id :=
  funext Coverage.respell_id

/-- A lookup whose references keep their spelling is the same lookup. -/
theorem LookupDefinition.respell_id (lookup : LookupDefinition) : lookup.respell id = lookup := by
  have contexts : ContextDefinition.respell id = id := by
    funext context
    simp [ContextDefinition.respell]
  have mappings : Mapping.respell id = id := by
    funext mapping
    simp [Mapping.respell]
  obtain ⟨name, processBase, marks, direction, reversal, comments, _, payload, location⟩ := lookup
  cases marks <;> rcases payload with _ | _ | _ | _ | _ <;>
    simp [LookupDefinition.respell, MarkFilter.respell, Payload.respell, Substitution.respell,
      Positioning.respell, contexts, mappings]

theorem ScriptDefinition.respell_id (script : ScriptDefinition) : script.respell id = script := by
  have features : FeatureDefinition.respell id = id := by
    funext feature
    simp [FeatureDefinition.respell]
  have languages : LanguageDefinition.respell id = id := by
    funext language
    simp [LanguageDefinition.respell, features]
  simp [ScriptDefinition.respell, languages]

/-- No statement changes if every reference keeps its spelling. -/
theorem Statement.respell_id (statement : Statement) : statement.respell id = statement := by
  cases statement <;>
    simp [Statement.respell, GroupDefinition.respell, LookupDefinition.respell_id,
      ScriptDefinition.respell_id]

theorem map_respell_id (statements : List Statement) :
    statements.map (Statement.respell id) = statements := by
  rw [funext Statement.respell_id, List.map_id']

/-! ## One spelling after another -/

variable (first second : String → String)

mutual

/-- Two spellings after each other are one spelling of an item, enumerations included. -/
theorem CoverageItem.respell_respell (item : CoverageItem) :
    (item.respell first).respell second = item.respell (second ∘ first) := by
  match item with
  | .glyph name => simp only [CoverageItem.respell]
  | .group name => simp only [CoverageItem.respell, Function.comp_apply]
  | .enumeration items =>
      simp only [CoverageItem.respell]
      rw [Coverage.respell_respell items]
  | .range start stop => simp only [CoverageItem.respell]

theorem Coverage.respell_respell (items : List CoverageItem) :
    Coverage.respell second (Coverage.respell first items) =
      Coverage.respell (second ∘ first) items := by
  match items with
  | [] => simp only [Coverage.respell]
  | item :: rest =>
      simp only [Coverage.respell]
      rw [CoverageItem.respell_respell item, Coverage.respell_respell rest]

end

@[simp] theorem Coverage.respell_comp :
    Coverage.respell second ∘ Coverage.respell first = Coverage.respell (second ∘ first) :=
  funext (Coverage.respell_respell first second)

theorem ContextDefinition.respell_respell (context : ContextDefinition) :
    (context.respell first).respell second = context.respell (second ∘ first) := by
  simp [ContextDefinition.respell]

theorem Mapping.respell_respell (mapping : Mapping) :
    (mapping.respell first).respell second = mapping.respell (second ∘ first) := by
  simp [Mapping.respell, Coverage.respell_respell]

/-- Two spellings after each other are one spelling, whatever is positioned. -/
theorem Positioning.respell_respell (positioning : Positioning) :
    (positioning.respell first).respell second = positioning.respell (second ∘ first) := by
  cases positioning <;>
    simp [Positioning.respell, Coverage.respell_respell, Prod.map_comp_map]

/-- Two spellings after each other are one spelling of a lookup, its contexts and flags included. -/
theorem LookupDefinition.respell_respell (lookup : LookupDefinition) :
    (lookup.respell first).respell second = lookup.respell (second ∘ first) := by
  obtain ⟨name, processBase, marks, direction, reversal, comments, contexts, payload, location⟩ :=
    lookup
  cases marks <;> cases payload <;>
    simp [LookupDefinition.respell, MarkFilter.respell, Payload.respell, Substitution.respell,
      ContextDefinition.respell_respell, Mapping.respell_respell, Positioning.respell_respell]

/-- Two spellings after each other are one spelling of the lookups that features use. -/
theorem ScriptDefinition.respell_respell (script : ScriptDefinition) :
    (script.respell first).respell second = script.respell (second ∘ first) := by
  simp [ScriptDefinition.respell, LanguageDefinition.respell, FeatureDefinition.respell,
    Function.comp_def]

/-- Two spellings after each other are one spelling of a statement. -/
theorem Statement.respell_respell (statement : Statement) :
    (statement.respell first).respell second = statement.respell (second ∘ first) := by
  cases statement <;>
    simp [Statement.respell, GroupDefinition.respell, Coverage.respell_respell,
      LookupDefinition.respell_respell, ScriptDefinition.respell_respell]

/-- A project may be spelled so that references are the same if they are in lower case. -/
theorem SameButForCase.exists_spelling
    {statements others : List Statement}
    (same : SameButForCase statements others) :
    ∃ spell : String → String, (∀ name, Text.lowercase (spell name) = Text.lowercase name)
      ∧ statements.map (Statement.respell spell) = others.map (Statement.respell spell) := by
  let back := Function.invFun Text.lowercase
  have respelled (project : List Statement) :
      project.map (Statement.respell (back ∘ Text.lowercase)) =
        (project.map (Statement.respell Text.lowercase)).map (Statement.respell back) := by
    simp [Statement.respell_respell]
  refine ⟨back ∘ Text.lowercase, fun name => Function.invFun_eq ⟨name, rfl⟩, ?_⟩
  rw [respelled, respelled, same]

end Source
end GlyphLayout
