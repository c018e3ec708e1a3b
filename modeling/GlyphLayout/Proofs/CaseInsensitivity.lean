import GlyphLayout.Proofs.ComparedRuns
import GlyphLayout.Proofs.Compiling
import GlyphLayout.Proofs.Table

/-!
# References in any case

Groups and lookups are found by their names in lower case.  So a conversion comes to the same
feature file whichever way the references of a project are spelled, as long as they stay the same
in lower case.  Only errors and notices repeat the spelling of a reference.
-/

namespace GlyphLayout

open Source (Coverage CoverageItem SameButForCase Statement)

/-! ## Coming to the same value -/

section

variable {α β γ : Type}

/-- Both results are the same value, or both are errors. -/
structure SameValue (first second : Except ConversionError α) : Prop where
  toOption_eq : first.toOption = second.toOption

/-- Results that come to the same value come to any value together. -/
theorem SameValue.eq_ok_iff
    {first second : Except ConversionError α}
    (same : SameValue first second)
    {value : α} :
    first = .ok value ↔ second = .ok value := by
  obtain ⟨same⟩ := same
  cases first <;> cases second <;> simp_all [Except.toOption]

/-- Two steps come to the same value if the second does so from values that correspond. -/
theorem SameValue.bind_map
    {first : Except ConversionError α}
    {second : Except ConversionError γ}
    {change : α → γ}
    {firstNext : α → Except ConversionError β}
    {secondNext : γ → Except ConversionError β}
    (head : SameValue (change <$> first) second)
    (next : ∀ value, SameValue (firstNext value) (secondNext (change value))) :
    SameValue (first >>= firstNext) (second >>= secondNext) := by
  cases first with
  | error error =>
      cases second with
      | error other => exact ⟨rfl⟩
      | ok other => cases head.toOption_eq
  | ok value =>
      cases head.eq_ok_iff.mp rfl
      exact next value

theorem Outcome.result_map (change : α → β) (outcome : Outcome α) :
    (change <$> outcome).result = change <$> outcome.result := by
  rw [map_eq_pure_bind, result_bind, map_eq_pure_bind]
  rfl

/-- The comparison of results that leaves out what errors and notices say. -/
def Comparison.byValue : Comparison where
  Same := SameValue
  SameRun first second := SameValue first.result second.result
  same_refl _ := ⟨rfl⟩
  same_bind_map := SameValue.bind_map
  sameRun_refl _ := ⟨rfl⟩
  sameRun_bind_map head next := by
    rw [Outcome.result_map] at head
    rw [Outcome.result_bind, Outcome.result_bind]
    exact head.bind_map next
  sameRun_lift same := same

end

open Comparison (byValue)

/-! ## Spelling definitions anew -/

/-- The lookups of a feature with the references in another spelling. -/
def FeatureLookups.respell (spell : String → String) (references : FeatureLookups) :
    FeatureLookups :=
  { references with lookups := references.lookups.map spell }

/-- The lookups of all features with the references in another spelling. -/
def LanguageSystems.respell (spell : String → String) (features : LanguageSystems) :
    LanguageSystems :=
  features.map (OrderedMap.map (OrderedMap.map (FeatureLookups.respell spell)))

/-- The second run has the references to lookups in another spelling. -/
def Variation.respelled (spell : String → String) : Variation :=
  ⟨id, LanguageSystems.respell spell⟩

namespace Definitions

/-- The definitions with the references to lookups in another spelling. -/
def respell (spell : String → String) (definitions : Definitions) : Definitions :=
  definitions.vary (.respelled spell)

variable {definitions : Definitions} {spell : String → String}

/-- References that are the same in lower case refer to the same groups. -/
theorem compares_respell (keeps : ∀ name, Text.lowercase (spell name) = Text.lowercase name) :
    Compares byValue (.respelled spell) spell definitions where
  group name location := by
    have sameGroups : (definitions.respell spell).groups = definitions.groups := rfl
    change byValue.Same _ ((definitions.respell spell).group (spell name) location)
    rw [group, group, keeps, sameGroups]
    cases definitions.groups.get? (Text.lowercase name) with
    | none => exact ⟨rfl⟩
    | some group => exact .refl _
  orderForRange _ _ := .refl _

end Definitions

/-! ## Definitions -/

/-- A fold commutes with a change of its items and its states if each step does. -/
theorem foldlM_map_of_commutes
    {m : Type → Type}
    [Monad m]
    [LawfulMonad m]
    {α β γ δ : Type}
    {step : β → α → m β}
    {again : δ → γ → m δ}
    {change : α → γ}
    {made : β → δ}
    (each : ∀ state item, again (made state) (change item) = made <$> step state item)
    (items : List α)
    (start : β) :
    (items.map change).foldlM again (made start) = made <$> items.foldlM step start := by
  induction items generalizing start with
  | nil => simp
  | cons item items ih =>
      rw [List.map_cons, List.foldlM_cons, List.foldlM_cons, each, map_bind, bind_map_left]
      exact bind_congr ih

namespace Definitions

variable {definitions : Definitions} {spell : String → String}

/-- A feature of a language keeps its references as spelt, and is found repeated in either
spelling. -/
theorem addLanguageSystem_respell
    (features : LanguageSystems)
    (feature script language : Tag)
    (lookups : FeatureLookups) :
    addLanguageSystem (features.respell spell) feature script language (lookups.respell spell) =
      LanguageSystems.respell spell <$>
        addLanguageSystem features feature script language lookups := by
  have scripts : (features.respell spell).getD feature ∅ =
      (features.getD feature ∅).map (OrderedMap.map (FeatureLookups.respell spell)) :=
    OrderedMap.getD_map _ features feature ∅
  have languages (given : OrderedMap Tag (OrderedMap Tag FeatureLookups)) :
      (given.map (OrderedMap.map (FeatureLookups.respell spell))).getD script ∅ =
        (given.getD script ∅).map (FeatureLookups.respell spell) :=
    OrderedMap.getD_map _ given script ∅
  simp only [addLanguageSystem, scripts, languages, OrderedMap.contains_map]
  split
  · rfl
  · simp only [← OrderedMap.map_insert, LanguageSystems.respell]
    rfl

/-- The features of a script are collected with their references as spelt. -/
theorem addScript_respell (script : Source.ScriptDefinition) :
    (definitions.respell spell).addScript (script.respell spell) =
      respell spell <$> definitions.addScript script := by
  have languages : addLanguages (definitions.features.respell spell) (script.respell spell) =
      LanguageSystems.respell spell <$> addLanguages definitions.features script := by
    refine foldlM_map_of_commutes (fun features language => ?_) script.languages _
    refine foldlM_map_of_commutes (fun features feature => ?_) language.features _
    exact addLanguageSystem_respell features feature.tag script.tag language.tag
      ⟨feature.lookups, feature.location⟩
  rw [addScript, addScript, map_bind]
  change addLanguages (definitions.features.respell spell) _ >>= _ = _
  rw [languages, bind_map_left]
  rfl

variable (keeps : ∀ name, Text.lowercase (spell name) = Text.lowercase name)

include keeps

/-- A statement defines the same in either spelling, up to the references that are kept as spelt. -/
theorem sameValue_add
    (definitions : Definitions)
    (statement : Statement) :
    byValue.SameRun (respell spell <$> definitions.add statement)
      ((definitions.respell spell).add (statement.respell spell)) :=
  sameRun_add (compares_respell keeps) (fun _ _ => rfl) fun script _ => addScript_respell script

/-- All definitions come to the same, up to the references that are kept as spelt. -/
theorem sameValue_collect
    (statements : List Statement)
    (glyphOrder : Option GlyphOrder) :
    byValue.SameRun (respell spell <$> collect statements glyphOrder)
      (collect (statements.map (Statement.respell spell)) glyphOrder) := by
  rw [collect, collect, map_bind]
  have start : ({ glyphOrder } : Definitions).respell spell = { glyphOrder } := rfl
  have steps := Comparison.SameRun.map_foldlM_map (sameValue_add keeps) statements { glyphOrder }
  rw [start] at steps
  exact steps.bind_map fun definitions => ⟨rfl⟩

end Definitions

/-! ## Features -/

namespace MergedLookups

variable {merged : MergedLookups} {spell : String → String}
  (keeps : ∀ name, Text.lowercase (spell name) = Text.lowercase name)

include keeps

/-- A reference to a lookup is looked up in lower case. -/
theorem sameValue_addReference
    (feature : Tag)
    (references : FeatureLookups)
    (labels : List String)
    (name : String) :
    byValue.SameRun (merged.addReference feature references labels name)
      (merged.addReference feature (references.respell spell) labels (spell name)) := by
  unfold addReference
  rw [keeps]
  cases merged.labels.get? (Text.lowercase name) with
  | none => exact ⟨rfl⟩
  | some label =>
      cases label with
      | none => exact ⟨rfl⟩
      | some label => exact .refl _

/-- The references of a feature become the same labels in either spelling. -/
theorem sameValue_references
    (feature : Tag)
    (references : FeatureLookups) :
    byValue.SameRun (merged.references feature references)
      (merged.references feature (references.respell spell)) :=
  .foldlM_map (sameValue_addReference keeps feature references) references.lookups []

theorem sameValue_scriptSystems
    (feature : Tag)
    (script : Tag × OrderedMap Tag FeatureLookups) :
    byValue.SameRun (merged.scriptSystems feature script)
      (merged.scriptSystems feature
        (Prod.map id (OrderedMap.map (FeatureLookups.respell spell)) script)) := by
  refine Comparison.SameRun.mapM_map (fun entry => ?_) script.2.entries
  exact (sameValue_references keeps feature entry.2).bind fun _ => .refl _

theorem sameValue_featureBlock
    (feature : Tag × OrderedMap Tag (OrderedMap Tag FeatureLookups)) :
    byValue.SameRun (merged.featureBlock feature)
      (merged.featureBlock
        (feature.map id (OrderedMap.map (OrderedMap.map (FeatureLookups.respell spell))))) := by
  have sorted : (feature.2.map (OrderedMap.map (FeatureLookups.respell spell))).entries.mergeSort
        (fun first second => scriptLe first.1 second.1) =
      (feature.2.entries.mergeSort fun first second => scriptLe first.1 second.1).map
        (Prod.map id (OrderedMap.map (FeatureLookups.respell spell))) :=
    (List.map_mergeSort (f := Prod.map id (OrderedMap.map (FeatureLookups.respell spell)))
      fun _ _ _ _ => rfl).symm
  unfold featureBlock
  dsimp only [Prod.map_fst, Prod.map_snd, id_eq]
  rw [sorted]
  exact (Comparison.SameRun.mapM_map (sameValue_scriptSystems keeps feature.1) _).bind
    fun _ => .refl _

/-- The blocks of the features are the same in either spelling. -/
theorem sameValue_featureBlocks (features : LanguageSystems) :
    byValue.SameRun (merged.featureBlocks features)
      (merged.featureBlocks (features.respell spell)) :=
  .mapM_map (sameValue_featureBlock keeps) features.entries

end MergedLookups

/-! ## Conversions -/

/-- A conversion comes to the same in any spelling that differs in case only. -/
theorem sameValue_convert
    {spell : String → String}
    (keeps : ∀ name, Text.lowercase (spell name) = Text.lowercase name)
    (statements : List Statement)
    (glyphOrder : Option GlyphOrder)
    (options : Options) :
    byValue.SameRun (convert statements glyphOrder options)
      (convert (statements.map (Statement.respell spell)) glyphOrder options) := by
  refine (Definitions.sameValue_collect keeps statements glyphOrder).bind_map
    fun definitions => ?_
  refine (Compilation.sameRun_ofStatements (Definitions.compares_respell keeps)
    statements).bind fun state => ?_
  refine (Comparison.SameRun.refl _).bind fun merged => ?_
  exact (MergedLookups.sameValue_featureBlocks keeps definitions.features).bind fun _ => .refl _

/--
The feature file of a project stays the same when its references to groups and lookups are
spelled in another way, as long as they are the same in lower case.
-/
theorem convert_of_sameButForCase
    {statements others : List Statement}
    {glyphOrder : Option GlyphOrder}
    {options : Options}
    {log : List Notice}
    {document : Feature.Document}
    (converted : convert statements glyphOrder options = ⟨log, .ok document⟩)
    (same : SameButForCase statements others) :
    ∃ later, convert others glyphOrder options = ⟨later, .ok document⟩ := by
  obtain ⟨spell, keeps, respelled⟩ := same.exists_spelling
  have common := sameValue_convert keeps statements glyphOrder options
  rw [respelled] at common
  have result : (convert statements glyphOrder options).result = .ok document := by
    rw [converted]
  have again := (sameValue_convert keeps others glyphOrder options).eq_ok_iff.mpr
    (common.eq_ok_iff.mp result)
  exact ⟨_, congrArg (Outcome.mk _) again⟩

/-- Capitals that are moved behind each other, with three references in the given spellings. -/
def movedCapitals (capitals accents move : String) : List Statement :=
  [.group ⟨"Capitals", [.glyph "A", .glyph "V"], ⟨1, 1⟩⟩,
    .group ⟨"Accents", [.glyph "acute"], ⟨1, 1⟩⟩,
    .lookup {
      name := "Move"
      processBase := true
      marks := .filterSet accents
      direction := some .leftToRight
      reversal := false
      comments := none
      contexts := [⟨.within, [[.enumeration [.glyph "T", .group capitals]]], []⟩]
      payload := .positioning (.singles [([.group capitals], { advance := some 10 })])
      location := ⟨1, 1⟩ },
    Compilation.kernFeature [move]]

theorem convert_of_sameButForCase_movedCapitals :
    ∃ log later document,
      convert (movedCapitals "Capitals" "Accents" "Move") none {} = ⟨log, .ok document⟩
        ∧ SameButForCase (movedCapitals "Capitals" "Accents" "Move")
            (movedCapitals "CAPITALS" "accents" "mOVE")
        ∧ convert (movedCapitals "CAPITALS" "accents" "mOVE") none {} =
            ⟨later, .ok document⟩
        ∧ document.lookups.length = 2 ∧ document.features.length = 1 := by
  obtain ⟨log, document, converted⟩ : ∃ log document,
      convert (movedCapitals "Capitals" "Accents" "Move") none {} = ⟨log, .ok document⟩ :=
    Outcome.exists_of_isOk (by decide +kernel)
  have blocks : ((convert (movedCapitals "Capitals" "Accents" "Move") none {}).result.toOption.map
      fun document => (document.lookups.length, document.features.length)) = some (2, 1) := by
    decide +kernel
  simp only [converted, Except.toOption, Option.map_some, Option.some.injEq,
    Prod.mk.injEq] at blocks
  have capitals : Text.lowercase "Capitals" = Text.lowercase "CAPITALS" := by decide +kernel
  have accents : Text.lowercase "Accents" = Text.lowercase "accents" := by decide +kernel
  have move : Text.lowercase "Move" = Text.lowercase "mOVE" := by decide +kernel
  have same : SameButForCase (movedCapitals "Capitals" "Accents" "Move")
      (movedCapitals "CAPITALS" "accents" "mOVE") := by
    simp [SameButForCase, movedCapitals, Compilation.kernFeature, Source.Statement.respell,
      Source.LookupDefinition.respell, Source.MarkFilter.respell, Source.Payload.respell,
      Source.ContextDefinition.respell, Source.Positioning.respell, Coverage.respell,
      CoverageItem.respell, Source.ScriptDefinition.respell, Source.LanguageDefinition.respell,
      Source.FeatureDefinition.respell, capitals, accents, move]
  obtain ⟨later, again⟩ := convert_of_sameButForCase converted same
  exact ⟨log, later, document, converted, same, again, blocks⟩

end GlyphLayout
