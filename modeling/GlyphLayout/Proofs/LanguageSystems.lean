import GlyphLayout.Proofs.Collecting
import Mathlib.Data.List.Induction

/-!
# Language systems of features

The scripts of a project say which lookups a feature uses in which language system.  The table
of features is keyed by feature, then by script, then by language, and at each level a key
stands where it was first used.  No feature is defined twice for one language system.
-/

namespace GlyphLayout

/-! ## First occurrences -/

section FirstOccurrences

variable {α : Type} [DecidableEq α]

/-- An element behind others is left out if it is one of them. -/
theorem eraseDups_concat (items : List α) (last : α) :
    (items ++ [last]).eraseDups =
      if last ∈ items then items.eraseDups else items.eraseDups ++ [last] := by
  have single : [last].eraseDups = [last] := by simp [List.eraseDups_cons]
  rw [List.eraseDups_append]
  split <;> rename_i present <;> simp [List.removeAll, present, single]

theorem nodup_eraseDups (items : List α) : items.eraseDups.Nodup := by
  induction items using List.reverseRecOn with
  | nil => exact .nil
  | append_singleton items last ih =>
      rw [eraseDups_concat]
      split
      · exact ih
      · rename_i fresh
        refine List.nodup_append.mpr ⟨ih, by simp, ?_⟩
        rintro item inside _ (_ | ⟨_, ⟨⟩⟩) rfl
        exact fresh (List.mem_eraseDups.mp inside)

end FirstOccurrences

namespace OrderedMap

variable {κ ν : Type} [DecidableEq κ]

theorem getD_insert (map : OrderedMap κ ν) (key : κ) (value : ν) (other : κ) (default : ν) :
    (map.insert key value).getD other default =
      if other = key then value else map.getD other default := by
  rw [getD, getD, get?_insert]
  split <;> rfl

end OrderedMap

namespace Definitions

open Source (ScriptDefinition Statement)

/-! ## Uses of features -/

/-- The lookups that a project gives to a feature in one language system. -/
structure FeatureUse where
  feature : Tag
  script : Tag
  language : Tag
  references : FeatureLookups

/-- The uses of features in the languages of a script, in order. -/
def usesOfScript (script : ScriptDefinition) : List FeatureUse :=
  script.languages.flatMap fun language => language.features.map fun feature =>
    ⟨feature.tag, script.tag, language.tag, ⟨feature.lookups, feature.location⟩⟩

/-- The uses of features that a statement makes. -/
def usesOfStatement : Statement → List FeatureUse
  | .script script => usesOfScript script
  | _ => []

/-- The uses of features that some statements make, in order. -/
def featureUses (statements : List Statement) : List FeatureUse :=
  statements.flatMap usesOfStatement

/-- Takes in one use of a feature. -/
def addUse (features : LanguageSystems) (use : FeatureUse) :
    Except ConversionError LanguageSystems :=
  addLanguageSystem features use.feature use.script use.language use.references

theorem addLanguages_eq_foldlM (features : LanguageSystems) (script : ScriptDefinition) :
    addLanguages features script = (usesOfScript script).foldlM addUse features := by
  have each (languages : List Source.LanguageDefinition) (features : LanguageSystems) :
      languages.foldlM (fun features language =>
        language.features.foldlM (fun features feature =>
          addLanguageSystem features feature.tag script.tag language.tag
            ⟨feature.lookups, feature.location⟩) features) features =
      (languages.flatMap fun language => language.features.map fun feature =>
        ⟨feature.tag, script.tag, language.tag, ⟨feature.lookups, feature.location⟩⟩).foldlM
          addUse features := by
    induction languages generalizing features with
    | nil => rfl
    | cons language languages ih =>
        rw [List.foldlM_cons, List.flatMap_cons, List.foldlM_append, List.foldlM_map]
        exact bind_congr ih
  exact each script.languages features

/-- A statement takes in the uses of features that it makes, and nothing else about features. -/
theorem features_of_add
    {definitions next : Definitions}
    {statement : Statement}
    {log : List Notice}
    (added : definitions.add statement = ⟨log, .ok next⟩) :
    (usesOfStatement statement).foldlM addUse definitions.features = .ok next.features := by
  cases addStep_of_add added with
  | script recorded => rwa [addLanguages_eq_foldlM] at recorded
  | glyph | group | markAnchor | baseAnchor | setting | lookup => rfl

/-- The table records some uses of features, each level in order of first use. -/
structure Records (features : LanguageSystems) (uses : List FeatureUse) : Prop where
  features_eq : features.keys = (uses.map FeatureUse.feature).eraseDups
  scripts_eq : ∀ feature, (features.getD feature ∅).keys =
    ((uses.filter (·.feature = feature)).map FeatureUse.script).eraseDups
  languages_eq : ∀ feature script, ((features.getD feature ∅).getD script ∅).entries =
    (uses.filter fun use => use.feature = feature ∧ use.script = script).map
      fun use => (use.language, use.references)

theorem records_nil : Records ∅ [] :=
  ⟨rfl, fun _ => rfl, fun _ _ => rfl⟩

/-- One more use, for a language system in which the feature has no lookups yet. -/
theorem Records.addUse
    {features next : LanguageSystems}
    {uses : List FeatureUse}
    {use : FeatureUse}
    (records : Records features uses)
    (added : Definitions.addUse features use = .ok next) :
    Records next (uses ++ [use]) := by
  unfold Definitions.addUse addLanguageSystem at added
  dsimp only at added
  split at added
  · cases added
  · rename_i fresh
    cases added
    rw [OrderedMap.contains_iff_mem_keys] at fresh
    constructor
    case features_eq =>
      rw [OrderedMap.keys_insert, records.features_eq, List.map_append, List.map_singleton,
        eraseDups_concat]
      simp
    case scripts_eq =>
      intro feature
      rw [OrderedMap.getD_insert]
      split
      · rename_i here
        subst here
        have all : (uses ++ [use]).filter (·.feature = use.feature) =
            uses.filter (·.feature = use.feature) ++ [use] := by
          simp [List.filter_append]
        rw [OrderedMap.keys_insert, records.scripts_eq, all, List.map_append,
          List.map_singleton, eraseDups_concat]
        simp only [List.mem_eraseDups]
      · rename_i elsewhere
        rw [records.scripts_eq]
        simp [List.filter_append, Ne.symm elsewhere]
    case languages_eq =>
      intro feature script
      rw [OrderedMap.getD_insert]
      split
      · rename_i here
        subst here
        rw [OrderedMap.getD_insert]
        split
        · rename_i same
          subst same
          rw [OrderedMap.entries_insert_of_not_mem _ _ fresh, records.languages_eq]
          simp [List.filter_append]
        · rename_i other
          rw [records.languages_eq]
          simp [List.filter_append, Ne.symm other]
      · rename_i elsewhere
        rw [records.languages_eq]
        simp [List.filter_append, Ne.symm elsewhere]

/-- Any number of uses, one after the other. -/
theorem Records.addUses
    {features last : LanguageSystems}
    {uses more : List FeatureUse}
    (records : Records features uses)
    (added : more.foldlM Definitions.addUse features = .ok last) :
    Records last (uses ++ more) := by
  induction more generalizing features uses with
  | nil =>
      cases added
      simpa using records
  | cons use more ih =>
      rw [List.foldlM_cons] at added
      obtain ⟨next, step, rest⟩ := except_bind_eq_ok_iff.mp added
      simpa using ih (records.addUse step) rest

/-- The definitions of a project record the uses of features that its scripts make. -/
theorem records_of_collect
    {statements : List Statement}
    {glyphOrder : Option GlyphOrder}
    {definitions : Definitions}
    {log : List Notice}
    (collected : collect statements glyphOrder = ⟨log, .ok definitions⟩) :
    Records definitions.features (featureUses statements) := by
  let recorded (done : List Statement) (definitions : Definitions) : Prop :=
    Records definitions.features (featureUses done)
  have start : recorded [] { glyphOrder } := records_nil
  refine collect_induction_add start (fun done statement before after _ records added => ?_)
    collected
  unfold recorded at records ⊢
  have more := records.addUses (features_of_add added)
  rwa [featureUses, List.flatMap_append, List.flatMap_singleton, ← featureUses]

end Definitions
end GlyphLayout
