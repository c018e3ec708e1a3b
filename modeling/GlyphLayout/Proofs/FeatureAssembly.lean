import GlyphLayout.Conversion
import GlyphLayout.Proofs.LanguageSystems
import GlyphLayout.Proofs.MergedLabels

/-!
# Assembly of features

Each feature of a project has one block, in which the scripts are put in order and the language
systems of a script stay together.  A feature refers to a lookup by its label, once, and a
conversion fails if a feature refers to a lookup that is not there.
-/

namespace GlyphLayout

open Feature (Document FeatureBlock LanguageSystem)
open Source (Statement)

variable {α β : Type}

/-! ## Steps that depend on definitions -/

/-- The step has the value if all is defined, and otherwise ends at a lookup that is not. -/
structure Resolves (defined : Prop) (outcome : Outcome α) (value : α) : Prop where
  of_defined : defined → outcome.result = .ok value
  of_undefined : ¬defined → ∃ name feature location,
    outcome.result = .error (.undefinedLookup name feature location)

namespace Resolves

variable {defined otherDefined : Prop} {outcome : Outcome α} {value : α}

/-- A step with a value has it anyhow. -/
theorem of_ok (result : outcome.result = .ok value) : Resolves True outcome value :=
  ⟨fun _ => result, fun no => (no trivial).elim⟩

theorem pure (value : α) : Resolves True (Pure.pure value) value :=
  of_ok rfl

/-- Both steps have to find all that they refer to. -/
theorem bind
    {next : α → Outcome β}
    {last : β}
    (first : Resolves defined outcome value)
    (second : Resolves otherDefined (next value) last) :
    Resolves (defined ∧ otherDefined) (outcome >>= next) last := by
  by_cases here : defined
  · have found := first.of_defined here
    obtain ⟨log, error | result⟩ := outcome <;> cases found
    exact ⟨fun both => second.of_defined both.2,
      fun missing => second.of_undefined fun there => missing ⟨here, there⟩⟩
  · obtain ⟨name, feature, location, failed⟩ := first.of_undefined here
    obtain ⟨log, error | result⟩ := outcome <;> cases failed
    exact ⟨fun both => absurd both.1 here, fun _ => ⟨name, feature, location, rfl⟩⟩

/-- The value of a step may be worked on. -/
theorem map
    (resolves : Resolves defined outcome value)
    (change : α → β) :
    Resolves defined (outcome >>= fun value => Pure.pure (change value)) (change value) := by
  have both : Resolves (defined ∧ True) (outcome >>= fun value => Pure.pure (change value))
      (change value) :=
    resolves.bind (pure (change value))
  rwa [and_true] at both

theorem mapM
    {each : α → Prop}
    {action : α → Outcome β}
    {make : α → β}
    (items : List α)
    (step : ∀ item, Resolves (each item) (action item) (make item)) :
    Resolves (∀ item ∈ items, each item) (items.mapM action) (items.map make) := by
  induction items with
  | nil => simpa using pure []
  | cons item items ih =>
      rw [List.mapM_cons, List.forall_mem_cons]
      exact (step item).bind (ih.map (make item :: ·))

end Resolves

namespace MergedLookups

variable (merged : MergedLookups)

/-! ## References -/

/-- The label under which features reach a lookup, if it has one. -/
def labelOf? (name : String) : Option String :=
  (merged.labels.get? (Text.lowercase name)).join

/-- The lookup is there, whatever the case of its name. -/
def Defines (name : String) : Prop :=
  Text.lowercase name ∈ merged.labels.keys

/-- The labels of the lookups that a feature refers to, each where it comes first. -/
def labelsOf (references : FeatureLookups) : List String :=
  (references.lookups.filterMap merged.labelOf?).eraseDups

theorem resolves_addReference
    (feature : Tag)
    (references : FeatureLookups)
    (seen : List String)
    (name : String) :
    Resolves (merged.Defines name)
      (merged.addReference feature references seen.eraseDups name)
      (seen ++ (merged.labelOf? name).toList).eraseDups := by
  unfold Defines labelOf?
  rw [← OrderedMap.contains_iff_mem_keys, OrderedMap.contains, addReference]
  cases found : merged.labels.get? (Text.lowercase name) with
  | none =>
      exact ⟨fun there => (Bool.false_ne_true there).elim,
        fun _ => ⟨name, feature, references.location, rfl⟩⟩
  | some label =>
      refine ⟨fun _ => ?_, fun missing => (missing rfl).elim⟩
      cases label with
      | none => simp [Outcome.tell, Outcome.bind_ok]
      | some label => simp [eraseDups_concat, List.mem_eraseDups]

theorem resolves_references (feature : Tag) (references : FeatureLookups) :
    Resolves (∀ name ∈ references.lookups, merged.Defines name)
      (merged.references feature references) (merged.labelsOf references) := by
  unfold MergedLookups.references labelsOf
  have run (names seen : List String) :
      Resolves (∀ name ∈ names, merged.Defines name)
        (names.foldlM (merged.addReference feature references) seen.eraseDups)
        (seen ++ names.filterMap merged.labelOf?).eraseDups := by
    induction names generalizing seen with
    | nil => simpa using Resolves.pure seen.eraseDups
    | cons name names ih =>
        have seen_eq : seen ++ (name :: names).filterMap merged.labelOf? =
            (seen ++ (merged.labelOf? name).toList) ++ names.filterMap merged.labelOf? := by
          cases label : merged.labelOf? name <;> simp [label]
        rw [List.foldlM_cons, List.forall_mem_cons, seen_eq]
        exact (merged.resolves_addReference feature references seen name).bind (ih _)
  exact run references.lookups []

/-! ## Blocks -/

/-- The lookups to which a feature refers in the language systems of its scripts are there. -/
def DefinesAll (scripts : List (Tag × OrderedMap Tag FeatureLookups)) : Prop :=
  ∀ script ∈ scripts, ∀ language ∈ script.2.entries, ∀ name ∈ language.2.lookups,
    merged.Defines name

/-- The language systems of a feature for one script. -/
def systemsOf (script : Tag × OrderedMap Tag FeatureLookups) : List LanguageSystem :=
  script.2.entries.map fun language => ⟨script.1, language.1, merged.labelsOf language.2⟩

/-- The scripts of a feature, in the order of its block. -/
def scriptsInOrder (scripts : List (Tag × OrderedMap Tag FeatureLookups)) :
    List (Tag × OrderedMap Tag FeatureLookups) :=
  scripts.mergeSort fun first second => scriptLe first.1 second.1

theorem scriptsInOrder_perm (scripts : List (Tag × OrderedMap Tag FeatureLookups)) :
    (scriptsInOrder scripts).Perm scripts :=
  List.mergeSort_perm scripts _

/-- The block of a feature, if all lookups are there. -/
def blockOf (feature : Tag × OrderedMap Tag (OrderedMap Tag FeatureLookups)) : FeatureBlock :=
  ⟨feature.1, (scriptsInOrder feature.2.entries).flatMap merged.systemsOf⟩

theorem resolves_featureBlock
    (feature : Tag × OrderedMap Tag (OrderedMap Tag FeatureLookups)) :
    Resolves (merged.DefinesAll feature.2.entries) (merged.featureBlock feature)
      (merged.blockOf feature) := by
  have systems (script : Tag × OrderedMap Tag FeatureLookups) :
      Resolves
        (∀ language ∈ script.2.entries, ∀ name ∈ language.2.lookups, merged.Defines name)
        (merged.scriptSystems feature.1 script) (merged.systemsOf script) :=
    Resolves.mapM script.2.entries fun ⟨language, references⟩ =>
      (merged.resolves_references feature.1 references).map fun labels =>
        (⟨script.1, language, labels⟩ : LanguageSystem)
  have all := (Resolves.mapM (scriptsInOrder feature.2.entries) systems).map fun systems =>
    (⟨feature.1, systems.flatten⟩ : FeatureBlock)
  have members : merged.DefinesAll (scriptsInOrder feature.2.entries) ↔
      merged.DefinesAll feature.2.entries := by
    simp only [DefinesAll, (scriptsInOrder_perm _).mem_iff]
  rw [← members]
  exact all

theorem resolves_featureBlocks (features : LanguageSystems) :
    Resolves (∀ feature ∈ features.entries, merged.DefinesAll feature.2.entries)
      (merged.featureBlocks features) (features.entries.map merged.blockOf) :=
  Resolves.mapM features.entries merged.resolves_featureBlock

end MergedLookups

/-! ## Scripts in order -/

/-- The default script stands before all others, which ascend. -/
def ScriptBefore (first second : Tag) : Prop :=
  second ≠ defaultScript ∧ (first = defaultScript ∨ first < second)

theorem scriptLe_iff {first second : Tag} :
    scriptLe first second ↔
      first = defaultScript ∨ (second ≠ defaultScript ∧ first.name ≤ second.name) := by
  have notBelow : ¬second < first ↔ first.name ≤ second.name := String.not_lt
  simp [scriptLe, notBelow]

theorem scriptLe_trans
    (first second third : Tag)
    (before : scriptLe first second)
    (after : scriptLe second third) :
    scriptLe first third := by
  rw [scriptLe_iff] at before after ⊢
  rcases before with isDefault | ⟨secondOther, below⟩
  · exact .inl isDefault
  · rcases after with isDefault | ⟨thirdOther, belowThird⟩
    · exact absurd isDefault secondOther
    · exact .inr ⟨thirdOther, String.le_trans below belowThird⟩

theorem scriptLe_total (first second : Tag) :
    (scriptLe first second || scriptLe second first) = true := by
  rw [Bool.or_eq_true, scriptLe_iff, scriptLe_iff]
  by_cases firstDefault : first = defaultScript
  · exact .inl (.inl firstDefault)
  · by_cases secondDefault : second = defaultScript
    · exact .inr (.inl secondDefault)
    · exact (String.le_total first.name second.name).imp
        (fun below => .inr ⟨secondDefault, below⟩) (fun below => .inr ⟨firstDefault, below⟩)

/-- Different scripts in order. -/
theorem scriptBefore_of_scriptLe
    {first second : Tag}
    (ordered : scriptLe first second)
    (different : first ≠ second) :
    ScriptBefore first second := by
  rcases scriptLe_iff.mp ordered with isDefault | ⟨other, below⟩
  · exact ⟨fun same => different (isDefault.trans same.symm), .inl isDefault⟩
  · refine ⟨other, .inr (Decidable.byContradiction fun notBelow => different ?_)⟩
    have sameName : first.name = second.name :=
      String.le_antisymm below (String.not_lt.mp notBelow)
    obtain ⟨_, _⟩ := first
    obtain ⟨_, _⟩ := second
    cases sameName
    rfl

namespace MergedLookups

theorem pairwise_scriptsInOrder (scripts : OrderedMap Tag (OrderedMap Tag FeatureLookups)) :
    (scriptsInOrder scripts.entries).Pairwise fun first second =>
      ScriptBefore first.1 second.1 := by
  have sorted : (scriptsInOrder scripts.entries).Pairwise fun first second =>
      scriptLe first.1 second.1 :=
    List.pairwise_mergeSort (fun first second third => scriptLe_trans first.1 second.1 third.1)
      (fun first second => scriptLe_total first.1 second.1) _
  have distinct : (scriptsInOrder scripts.entries).Pairwise fun first second =>
      first.1 ≠ second.1 := by
    have nodup := ((scriptsInOrder_perm scripts.entries).map Prod.fst).nodup_iff.mpr
      scripts.nodup_keys
    exact List.pairwise_map.mp nodup
  exact (sorted.and distinct).imp fun both => scriptBefore_of_scriptLe both.1 both.2

end MergedLookups

/-- The language systems of a block, without their lookups. -/
def Feature.FeatureBlock.places (block : FeatureBlock) : List (Tag × Tag) :=
  block.systems.map fun system => (system.script, system.language)

/-- A block for what a table of features records under one tag. -/
structure IsFeatureBlock (merged : MergedLookups)
    (feature : Tag × OrderedMap Tag (OrderedMap Tag FeatureLookups)) (block : FeatureBlock) :
    Prop where
  tag_eq : block.tag = feature.1
  /-- The scripts come in order, and all languages of a script together, as they are recorded. -/
  places_eq : ∃ scripts : List (Tag × OrderedMap Tag FeatureLookups),
    scripts.Perm feature.2.entries
      ∧ scripts.Pairwise (fun first second => ScriptBefore first.1 second.1)
      ∧ block.places = scripts.flatMap fun script => script.2.keys.map (Prod.mk script.1)
  mem_places_iff : ∀ script language, (script, language) ∈ block.places ↔
    ∃ languages, feature.2.get? script = some languages ∧ language ∈ languages.keys
  nodup_places : block.places.Nodup
  /-- The lookups of a language system are the recorded ones, under their labels. -/
  lookups_eq : ∀ system ∈ block.systems, ∃ languages references,
    feature.2.get? system.script = some languages
      ∧ languages.get? system.language = some references
      ∧ system.lookups = (references.lookups.filterMap merged.labelOf?).eraseDups
  nodup_lookups : ∀ system ∈ block.systems, system.lookups.Nodup

section Block

variable (merged : MergedLookups) (tag : Tag)
  (scripts : OrderedMap Tag (OrderedMap Tag FeatureLookups))

theorem places_blockOf :
    (merged.blockOf (tag, scripts)).places =
      (MergedLookups.scriptsInOrder scripts.entries).flatMap fun script =>
        script.2.keys.map (Prod.mk script.1) := by
  simp [FeatureBlock.places, MergedLookups.blockOf, MergedLookups.systemsOf, List.map_flatMap,
    OrderedMap.keys, Function.comp_def]

/-- A block has the language systems that are recorded. -/
theorem mem_places_blockOf_iff
    {script language : Tag} :
    (script, language) ∈ (merged.blockOf (tag, scripts)).places ↔
      ∃ languages, scripts.get? script = some languages ∧ language ∈ languages.keys := by
  have perm := MergedLookups.scriptsInOrder_perm scripts.entries
  rw [places_blockOf]
  constructor
  · intro member
    obtain ⟨entry, listed, inside⟩ := List.mem_flatMap.mp member
    obtain ⟨_, recorded, same⟩ := List.mem_map.mp inside
    cases same
    exact ⟨entry.2, OrderedMap.get?_of_mem (perm.mem_iff.mp listed), recorded⟩
  · rintro ⟨languages, found, recorded⟩
    refine List.mem_flatMap.mpr ⟨(script, languages), ?_, List.mem_map_of_mem recorded⟩
    exact perm.mem_iff.mpr (OrderedMap.get?_eq_some_iff.mp found)

theorem nodup_places_blockOf : (merged.blockOf (tag, scripts)).places.Nodup := by
  rw [places_blockOf, List.nodup_flatMap]
  refine ⟨fun script _ => script.2.keys_nodup.map fun _ _ same => (Prod.mk.inj same).2, ?_⟩
  refine (MergedLookups.pairwise_scriptsInOrder scripts).imp fun {first second} before => ?_
  intro place inFirst inSecond
  obtain ⟨_, _, rfl⟩ := List.mem_map.mp inFirst
  obtain ⟨_, _, same⟩ := List.mem_map.mp inSecond
  have sameScript : second.1 = first.1 := (Prod.mk.inj same).1
  rcases before with ⟨notDefault, isDefault | below⟩
  · exact notDefault (sameScript.trans isDefault)
  · exact String.lt_irrefl _ (sameScript ▸ below)

/-- A language system has the lookups that are recorded for it. -/
theorem lookups_of_mem_blockOf
    {system : LanguageSystem}
    (member : system ∈ (merged.blockOf (tag, scripts)).systems) :
    ∃ languages references, scripts.get? system.script = some languages
      ∧ languages.get? system.language = some references
      ∧ system.lookups = merged.labelsOf references := by
  have perm := MergedLookups.scriptsInOrder_perm scripts.entries
  obtain ⟨script, listed, inside⟩ := List.mem_flatMap.mp member
  obtain ⟨language, recorded, rfl⟩ := List.mem_map.mp inside
  exact ⟨script.2, language.2, OrderedMap.get?_of_mem (perm.mem_iff.mp listed),
    OrderedMap.get?_of_mem recorded, rfl⟩

end Block

theorem isFeatureBlock_blockOf
    (merged : MergedLookups)
    (feature : Tag × OrderedMap Tag (OrderedMap Tag FeatureLookups)) :
    IsFeatureBlock merged feature (merged.blockOf feature) where
  tag_eq := rfl
  places_eq := ⟨_, MergedLookups.scriptsInOrder_perm feature.2.entries,
    MergedLookups.pairwise_scriptsInOrder feature.2, places_blockOf merged feature.1 feature.2⟩
  mem_places_iff _ _ := mem_places_blockOf_iff merged feature.1 feature.2
  nodup_places := nodup_places_blockOf merged feature.1 feature.2
  lookups_eq _ := lookups_of_mem_blockOf merged feature.1 feature.2
  nodup_lookups system member := by
    obtain ⟨_, references, _, _, same⟩ := lookups_of_mem_blockOf merged feature.1 feature.2 member
    rw [same]
    exact nodup_eraseDups _

/-! ## Feature files -/

/-- The names by which features refer to lookups. -/
def LanguageSystems.referencedNames (features : LanguageSystems) : List String :=
  features.entries.flatMap fun feature => feature.2.entries.flatMap fun script =>
    script.2.entries.flatMap fun language => language.2.lookups

/-- What is assembled once the lookups have been merged, if features refer only to lookups. -/
theorem resolves_assemble
    (definitions : Definitions)
    {state : Compilation}
    {merged : MergedLookups}
    {log : List Notice}
    (labels : state.LabelsLookups merged)
    (found : state.merge = ⟨log, .ok merged⟩) :
    Resolves
      (∀ name ∈ definitions.features.referencedNames, Text.lowercase name ∈ state.lookups.keys)
      (assemble definitions state)
      { glyphClasses := definitions.glyphClassBlocks
        markClasses := definitions.markClassBlocks state
        lookups := merged.blocks
        features := definitions.features.entries.map merged.blockOf
        definitions :=
          if definitions.glyphClasses.isEmpty then none else some definitions.glyphClasses } := by
  have defined :
      (∀ name ∈ definitions.features.referencedNames,
        Text.lowercase name ∈ state.lookups.keys) ↔
      True ∧ ∀ feature ∈ definitions.features.entries, merged.DefinesAll feature.2.entries := by
    simp only [LanguageSystems.referencedNames, MergedLookups.DefinesAll, MergedLookups.Defines,
      labels.keys_eq, List.mem_flatMap, true_and]
    constructor
    · intro all feature listed script inside language recorded name referenced
      exact all name ⟨feature, listed, script, inside, language, recorded, referenced⟩
    · rintro all name ⟨feature, listed, script, inside, language, recorded, referenced⟩
      exact all feature listed script inside language recorded name referenced
  have merges : Resolves True state.merge merged := .of_ok (congrArg Outcome.result found)
  rw [defined]
  exact merges.bind ((merged.resolves_featureBlocks definitions.features).map _)

open Compilation

/--
Assembling any lookups for any definitions gives one block for each feature, as recorded, unless
a feature refers to a lookup that is not there.  For the definitions of a project the record is
what its scripts say, in the order in which they say it.
-/
theorem assembled_features :
    (∀ (definitions : Definitions) (state : Compilation), ∃ merged,
      state.merge.result = .ok merged
      ∧ state.LabelsLookups merged
      ∧ (∀ document, (assemble definitions state).result = .ok document →
        document.lookups = merged.blocks
        ∧ List.Forall₂ (IsFeatureBlock merged) definitions.features.entries document.features)
      ∧ ((∃ name feature location, (assemble definitions state).result =
            .error (.undefinedLookup name feature location)) ↔
          ∃ name ∈ definitions.features.referencedNames,
            Text.lowercase name ∉ state.lookups.keys))
    ∧ ∀ statements glyphOrder log definitions,
      Definitions.collect statements glyphOrder = ⟨log, .ok definitions⟩ →
        Definitions.Records definitions.features (Definitions.featureUses statements) := by
  refine ⟨fun definitions state => ?_, fun _ _ _ _ => Definitions.records_of_collect⟩
  obtain ⟨log, merged, found, labels⟩ := state.exists_labelsLookups_of_merge
  have resolves := resolves_assemble definitions labels found
  refine ⟨merged, by rw [found], labels, fun document assembled => ?_, ?_⟩
  · by_cases defined : ∀ name ∈ definitions.features.referencedNames,
        Text.lowercase name ∈ state.lookups.keys
    · rw [resolves.of_defined defined] at assembled
      cases assembled
      refine ⟨rfl, ?_⟩
      rw [List.forall₂_map_right_iff, List.forall₂_same]
      exact fun feature _ => isFeatureBlock_blockOf merged feature
    · obtain ⟨_, _, _, failed⟩ := resolves.of_undefined defined
      rw [failed] at assembled
      cases assembled
  · constructor
    · rintro ⟨name, feature, location, failed⟩
      have missing : ¬∀ name ∈ definitions.features.referencedNames,
          Text.lowercase name ∈ state.lookups.keys := by
        intro all
        rw [resolves.of_defined all] at failed
        cases failed
      simpa using missing
    · rintro ⟨name, referenced, missing⟩
      exact resolves.of_undefined fun all => missing (all name referenced)

/-- A feature that refers to one lookup twice, and to a piece behind the first. -/
def kernTwice : List Statement :=
  [kernFeature ["space", "kern\\2", "kern\\1", "SPACE"], spacing "space",
    kerning "kern\\1" [("A", "V")], kerning "kern\\2" [("T", "V")]]

theorem assembled_features_kernTwice :
    ∃ log definitions state document,
      Definitions.collect kernTwice none = ⟨log, .ok definitions⟩
        ∧ (assemble definitions state).result = .ok document
        ∧ document.features.map (fun block => block.systems.map fun system =>
            (system.script.name, system.language.name, system.lookups)) =
          [[("latn", "dflt", ["space", "kern"])]]
        ∧ (∃ merged, state.LabelsLookups merged
            ∧ List.Forall₂ (IsFeatureBlock merged) definitions.features.entries document.features)
        ∧ Definitions.Records definitions.features (Definitions.featureUses kernTwice) := by
  have evaluated : (convert kernTwice none {}).result.toOption.map (fun document =>
      document.features.map fun block => block.systems.map fun system =>
        (system.script.name, system.language.name, system.lookups)) =
      some [[("latn", "dflt", ["space", "kern"])]] := by
    decide +kernel
  obtain ⟨document, found, systems⟩ := Option.map_eq_some_iff.mp evaluated
  have converted : convert kernTwice none {} =
      ⟨(convert kernTwice none {}).log, .ok document⟩ := by
    rw [← except_eq_ok_of_toOption found]
  obtain ⟨log, definitions, _, collected, rest, _⟩ := Outcome.bind_eq_ok_iff.mp converted
  obtain ⟨_, state, _, _, assembled, _⟩ := Outcome.bind_eq_ok_iff.mp rest
  have result : (assemble definitions state).result = .ok document := by rw [assembled]
  obtain ⟨merged, _, labels, blocks, _⟩ := assembled_features.1 definitions state
  exact ⟨log, definitions, state, document, collected, result, systems,
    ⟨merged, labels, (blocks document result).2⟩, assembled_features.2 _ _ _ _ collected⟩

end GlyphLayout
