import GlyphLayout.Lookup.Compilation
import Mathlib.Data.List.Basic

/-!
# References between lookups

A contextual positioning rule applies other lookups, which it refers to by label.  The lemmas
here say what a renaming of the labels does to a rule, to a compiled lookup and to a block:
it changes the references and nothing else.
-/

namespace GlyphLayout

open Feature (Rule)

namespace Feature
namespace Rule

variable {rename again : String → String} {rule : Rule}

/-- The rule acts on glyphs or says how, so it is neither a comment nor a subtable break. -/
def isEffective : Rule → Bool
  | comment _ | subtable => false
  | _ => true

/-- The rule acts on glyphs: it is no comment, no statement of flags and no subtable break. -/
def actsOnGlyphs : Rule → Bool
  | comment _ | flags _ | subtable => false
  | _ => true

/-- The labels of the lookups that a rule applies. -/
def references : Rule → List String
  | chainPos _ input => input.filterMap Prod.snd
  | _ => []

/-- The rule with its references renamed. -/
def relabel (rename : String → String) : Rule → Rule
  | chainPos context input =>
      chainPos context (input.map fun item => (item.1, item.2.map rename))
  | rule => rule

/-- A rule that acts on glyphs has an effect. -/
theorem isEffective_of_actsOnGlyphs (acts : rule.actsOnGlyphs) : rule.isEffective := by
  cases rule <;> simp_all [actsOnGlyphs, isEffective]

@[simp] theorem isEffective_relabel : (rule.relabel rename).isEffective = rule.isEffective := by
  cases rule <;> rfl

@[simp] theorem actsOnGlyphs_relabel :
    (rule.relabel rename).actsOnGlyphs = rule.actsOnGlyphs := by
  cases rule <;> rfl

@[simp] theorem isPair_relabel : (rule.relabel rename).isPair = rule.isPair := by
  cases rule <;> rfl

/-- A rule under other names refers to the labels under their other names. -/
@[simp] theorem references_relabel :
    (rule.relabel rename).references = rule.references.map rename := by
  cases rule with
  | chainPos context input =>
      simp only [relabel, references, List.filterMap_map, List.map_filterMap]
      exact List.filterMap_congr fun _ _ => rfl
  | _ => rfl

/-- Only the names that a rule refers to matter. -/
theorem relabel_congr (agree : ∀ name ∈ rule.references, rename name = again name) :
    rule.relabel rename = rule.relabel again := by
  cases rule with
  | chainPos context input =>
      simp only [references, List.mem_filterMap] at agree
      refine congrArg (chainPos context) (List.map_congr_left fun item member => ?_)
      obtain ⟨glyphs, _ | name⟩ := item
      · rfl
      · have same : rename name = again name := agree name ⟨_, member, rfl⟩
        simp only [Option.map_some, same]
  | _ => rfl

theorem relabel_id : rule.relabel id = rule := by
  cases rule with
  | chainPos context input => simp [relabel]
  | _ => rfl

/-- A rule that refers to nothing stays as it is. -/
theorem relabel_eq_self (plain : rule.references = []) : rule.relabel rename = rule := by
  have same : rule.relabel rename = rule.relabel id := relabel_congr (by simp [plain])
  rw [same, relabel_id]

/-- Two renamings after each other are one. -/
@[simp] theorem relabel_relabel :
    (rule.relabel rename).relabel again = rule.relabel (again ∘ rename) := by
  cases rule with
  | chainPos context input => simp [relabel]
  | _ => rfl

end Rule
end Feature

namespace CompiledLookup

variable {rename again : String → String} {lookup : CompiledLookup}

/-- The name under which a lookup is found. -/
def key (lookup : CompiledLookup) : String :=
  Text.lowercase lookup.sourceName

/-- The labels that a lookup mentions, its own one among them. -/
def mentions (lookup : CompiledLookup) : List String :=
  lookup.label :: lookup.rules.flatMap Rule.references

/-- The lookup with its label and its references renamed. -/
def relabel (rename : String → String) (lookup : CompiledLookup) : CompiledLookup :=
  { lookup with
    label := rename lookup.label
    rules := lookup.rules.map (Rule.relabel rename) }

@[simp] theorem key_relabel : (lookup.relabel rename).key = lookup.key := rfl

@[simp] theorem id_relabel : (lookup.relabel rename).id = lookup.id := rfl

@[simp] theorem kind_relabel : (lookup.relabel rename).kind = lookup.kind := rfl

@[simp] theorem sourceName_relabel :
    (lookup.relabel rename).sourceName = lookup.sourceName := rfl

@[simp] theorem rules_relabel :
    (lookup.relabel rename).rules = lookup.rules.map (Rule.relabel rename) := rfl

@[simp] theorem map_key_relabel (rename : String → String) (lookups : List CompiledLookup) :
    (lookups.map (relabel rename)).map key =
      lookups.map key := by
  rw [List.map_map]
  rfl

/-- Only the labels that a lookup mentions matter. -/
theorem relabel_congr (agree : ∀ name ∈ lookup.mentions, rename name = again name) :
    lookup.relabel rename = lookup.relabel again := by
  have own : rename lookup.label = again lookup.label := agree _ (List.mem_cons_self ..)
  have rules : lookup.rules.map (Rule.relabel rename) = lookup.rules.map (Rule.relabel again) := by
    refine List.map_congr_left fun rule member => Rule.relabel_congr fun name inside => ?_
    exact agree name (List.mem_cons_of_mem _ (List.mem_flatMap.mpr ⟨rule, member, inside⟩))
  rw [relabel, relabel, own, rules]

end CompiledLookup
end GlyphLayout
