import GlyphLayout.Proofs.Failures
import GlyphLayout.Proofs.LanguageSystems

/-!
# Repeated language systems

A feature has its lookups once in each language system.  Uses of features are recorded exactly if
no two of them are for the same feature, script and language; otherwise the first use that repeats
an earlier one is reported, at its place.
-/

namespace GlyphLayout

/-- The lookups that a table gives to a feature in a language system. -/
def LanguageSystems.lookups? (features : LanguageSystems) (feature script language : Tag) :
    Option FeatureLookups :=
  (features.get? feature).bind fun scripts =>
    (scripts.get? script).bind fun languages => languages.get? language

namespace Definitions

open Source (ScriptDefinition)

variable {features : LanguageSystems} {uses : List FeatureUse} {use : FeatureUse}

/-- The feature and the language system in which it is used. -/
def FeatureUse.place (use : FeatureUse) : Tag × Tag × Tag :=
  (use.feature, use.script, use.language)

/-- The report that a feature has lookups already where it is used. -/
def FeatureUse.duplicate (use : FeatureUse) : ConversionError :=
  .duplicateLanguageSystem use.feature use.script use.language use.references.location

/-- The first use that repeats the place of an earlier one: up to it, no two places are the same. -/
def FirstRepetition (uses : List FeatureUse) (use : FeatureUse) : Prop :=
  ∃ before after, uses = before ++ use :: after
    ∧ (before.map FeatureUse.place).Nodup ∧ use.place ∈ before.map FeatureUse.place

/-- Uses with a repetition do not have different places. -/
theorem FirstRepetition.not_nodup (first : FirstRepetition uses use) :
    ¬ (uses.map FeatureUse.place).Nodup := by
  obtain ⟨before, after, rfl, _, repeated⟩ := first
  intro nodup
  rw [List.map_append, List.map_cons, List.nodup_append] at nodup
  exact nodup.2.2 _ repeated _ (List.mem_cons_self ..) rfl

/-! ## What a table records -/

theorem lookups?_eq (feature script language : Tag) :
    features.lookups? feature script language =
      ((features.getD feature ∅).getD script ∅).get? language := by
  unfold LanguageSystems.lookups? OrderedMap.getD
  cases features.get? feature with
  | none => rfl
  | some scripts =>
      simp only [Option.bind_some, Option.getD_some]
      cases scripts.get? script <;> rfl

/-- A table gives the lookups of each use to its feature in its language system, and no others. -/
theorem Records.lookups?_eq_some_iff
    (records : Records features uses)
    {feature script language : Tag}
    {references : FeatureLookups} :
    features.lookups? feature script language = some references ↔
      ⟨feature, script, language, references⟩ ∈ uses := by
  rw [lookups?_eq, OrderedMap.get?_eq_some_iff, records.languages_eq, List.mem_map]
  constructor
  · rintro ⟨⟨_, _, _, _⟩, listed, same⟩
    obtain ⟨inside, rfl, rfl⟩ : _ ∧ _ = feature ∧ _ = script := by simpa using listed
    cases same
    exact inside
  · intro inside
    exact ⟨⟨feature, script, language, references⟩, by simpa using inside, rfl⟩

/-- The languages of a feature for a script are those of the uses with their places. -/
theorem Records.contains_iff (records : Records features uses) :
    ((features.getD use.feature ∅).getD use.script ∅).contains use.language ↔
      use.place ∈ uses.map FeatureUse.place := by
  rw [OrderedMap.contains_iff_mem_keys, OrderedMap.keys, records.languages_eq, List.map_map]
  simp [FeatureUse.place, and_assoc]

/-! ## One use, and uses in a row -/

/-- One more use is recorded if its place is new, and reported otherwise. -/
theorem Records.addUse_of_mem
    (records : Records features uses)
    (repeated : use.place ∈ uses.map FeatureUse.place) :
    Definitions.addUse features use = .error use.duplicate :=
  if_pos (records.contains_iff.mpr repeated)

theorem Records.exists_addUse
    (records : Records features uses)
    (fresh : use.place ∉ uses.map FeatureUse.place) :
    ∃ next, Definitions.addUse features use = .ok next :=
  ⟨_, if_neg fun present => fresh (records.contains_iff.mp present)⟩

/-- Uses in a row are recorded if their places are new, up to the first one that is not. -/
theorem Records.foldlM_addUse
    (records : Records features uses)
    (nodup : (uses.map FeatureUse.place).Nodup)
    (more : List FeatureUse) :
    (∃ last, more.foldlM Definitions.addUse features = .ok last ∧ Records last (uses ++ more)
        ∧ ((uses ++ more).map FeatureUse.place).Nodup)
      ∨ ∃ use, more.foldlM Definitions.addUse features = .error use.duplicate
        ∧ FirstRepetition (uses ++ more) use := by
  induction more generalizing features uses with
  | nil =>
      rw [List.append_nil]
      exact .inl ⟨features, rfl, records, nodup⟩
  | cons use more ih =>
      rw [List.foldlM_cons]
      by_cases repeated : use.place ∈ uses.map FeatureUse.place
      · rw [records.addUse_of_mem repeated]
        exact .inr ⟨use, rfl, uses, more, rfl, nodup, repeated⟩
      · obtain ⟨next, added⟩ := records.exists_addUse repeated
        have longer : ((uses ++ [use]).map FeatureUse.place).Nodup := by
          rw [List.map_append, List.map_singleton]
          exact (List.perm_append_singleton ..).nodup_iff.mpr
            (List.nodup_cons.mpr ⟨repeated, nodup⟩)
        have run := ih (records.addUse added) longer
        rw [List.append_assoc, List.singleton_append] at run
        rw [added]
        exact run

/-! ## Scripts -/

/-- The uses of features that some scripts make, in order. -/
def usesOfScripts (scripts : List ScriptDefinition) : List FeatureUse :=
  scripts.flatMap usesOfScript

/-- Scripts are taken in use by use, and nothing but the table of features changes. -/
theorem foldlM_addScript (definitions : Definitions) (scripts : List ScriptDefinition) :
    scripts.foldlM addScript definitions =
      (fun features => { definitions with features }) <$>
        (usesOfScripts scripts).foldlM addUse definitions.features := by
  induction scripts generalizing definitions with
  | nil => rfl
  | cons script scripts ih =>
      have split : usesOfScripts (script :: scripts) =
          usesOfScript script ++ usesOfScripts scripts := List.flatMap_cons
      rw [List.foldlM_cons, split, List.foldlM_append, addScript, addLanguages_eq_foldlM]
      cases (usesOfScript script).foldlM addUse definitions.features with
      | error error => rfl
      | ok features => exact ih { definitions with features }

/--
Scripts are taken into definitions without features exactly if no two of their uses of features
are for the same language system.  The table then has the lookups of each use under its feature,
script and language, and nothing else, with the keys at each level in order of first use; and all
other definitions stay as they are.  Otherwise the first use that repeats an earlier one is
reported, at its place.
-/
theorem foldlM_addScript_exact (definitions : Definitions) (scripts : List ScriptDefinition) :
    ((∃ next, scripts.foldlM addScript { definitions with features := ∅ } = .ok next) ↔
        ((usesOfScripts scripts).map FeatureUse.place).Nodup)
      ∧ (∀ next, scripts.foldlM addScript { definitions with features := ∅ } = .ok next →
          next = { definitions with features := next.features }
            ∧ Records next.features (usesOfScripts scripts)
            ∧ ∀ feature script language references,
                next.features.lookups? feature script language = some references ↔
                  ⟨feature, script, language, references⟩ ∈ usesOfScripts scripts)
      ∧ ∀ error, scripts.foldlM addScript { definitions with features := ∅ } = .error error →
          ∃ use, FirstRepetition (usesOfScripts scripts) use ∧ error = use.duplicate := by
  rw [foldlM_addScript]
  rcases records_nil.foldlM_addUse List.nodup_nil (usesOfScripts scripts) with
    ⟨last, run, records, nodup⟩ | ⟨use, run, first⟩
  · rw [List.nil_append] at records nodup
    rw [run]
    refine ⟨⟨fun _ => nodup, fun _ => ⟨_, rfl⟩⟩, ?_, nofun⟩
    rintro next ⟨⟩
    exact ⟨rfl, records, fun _ _ _ _ => records.lookups?_eq_some_iff⟩
  · rw [List.nil_append] at first
    rw [run]
    refine ⟨⟨nofun, fun nodup => absurd nodup first.not_nodup⟩, nofun, ?_⟩
    rintro _ ⟨⟩
    exact ⟨use, first, rfl⟩

theorem isTagName_dflt : IsTagName "dflt" :=
  (isTagName_iff _).mp rfl

theorem isTagName_kern : IsTagName "kern" :=
  (isTagName_iff _).mp rfl

theorem isTagName_liga : IsTagName "liga" :=
  (isTagName_iff _).mp rfl

/-- A script whose default language has lookups of its own for kerning and for ligatures. -/
def kernedScript (script : String) (valid : IsTagName script) (line : Nat) :
    ScriptDefinition where
  title := none
  tag := ⟨script, valid⟩
  languages := [{
    title := none
    tag := ⟨"dflt", isTagName_dflt⟩
    features := [
      ⟨none, ⟨"kern", isTagName_kern⟩, [script ++ " kern"], ⟨line, 1⟩⟩,
      ⟨none, ⟨"liga", isTagName_liga⟩, [script ++ " liga"], ⟨line, 9⟩⟩]
    location := ⟨line, 1⟩ }]
  location := ⟨line, 1⟩

/-- Two scripts may use the same features, but the first of them may not use them again. -/
theorem foldlM_addScript_exact_latinAndGreek :
    let latin := kernedScript "latn" ((isTagName_iff _).mp rfl)
    let greek := kernedScript "grek" ((isTagName_iff _).mp rfl)
    (∃ next, [latin 1, greek 2].foldlM addScript { glyphOrder := none } = .ok next
      ∧ Records next.features (usesOfScripts [latin 1, greek 2]))
    ∧ ∃ use, FirstRepetition (usesOfScripts [latin 1, greek 2, latin 3]) use
        ∧ use.duplicate = .duplicateLanguageSystem ⟨"kern", isTagName_kern⟩
            (latin 3).tag ⟨"dflt", isTagName_dflt⟩ ⟨3, 1⟩ := by
  intro latin greek
  obtain ⟨ok_iff, recorded, _⟩ := foldlM_addScript_exact { glyphOrder := none } [latin 1, greek 2]
  obtain ⟨next, run⟩ := ok_iff.mpr (by decide +kernel)
  refine ⟨⟨next, run, (recorded next run).2.1⟩, ?_⟩
  obtain ⟨_, _, reported⟩ :=
    foldlM_addScript_exact { glyphOrder := none } [latin 1, greek 2, latin 3]
  have failed : error? ([latin 1, greek 2, latin 3].foldlM addScript { glyphOrder := none }) =
      some (.duplicateLanguageSystem ⟨"kern", isTagName_kern⟩
        (latin 3).tag ⟨"dflt", isTagName_dflt⟩ ⟨3, 1⟩) := by
    decide +kernel
  obtain ⟨use, first, same⟩ := reported _ (eq_error_of_error? failed)
  exact ⟨use, first, same.symm⟩

end Definitions
end GlyphLayout
