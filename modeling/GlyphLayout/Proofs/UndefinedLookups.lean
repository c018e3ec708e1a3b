import GlyphLayout.Proofs.FeatureAssembly
import GlyphLayout.Proofs.GeneratedNames
import GlyphLayout.Proofs.HelperNotices
import GlyphLayout.Proofs.RepeatedSystems

/-!
# Undefined lookups

A feature may refer to every lookup that has been compiled.  These are the lookups that the project
defines, and also those for which names are made up: helpers, and the pieces of a lookup behind the
first.  So an undefined lookup is caught unless a name that has been made up happens to be its name.
-/

namespace GlyphLayout

open Feature (Document)
open Source (LookupDefinition Statement)

namespace Compilation

variable {definitions : Definitions} {options : Options} {lookup : LookupDefinition}
  {drafts : List CompiledLookup} {statements : List Statement} {state : Compilation}
  {name : String}

/-! ## Names that are made up -/

/-- The pieces into which the pairs of a lookup are divided under the options, if they are. -/
def dividedPairs (definitions : Definitions) (options : Options) (lookup : LookupDefinition) :
    List (List Feature.Rule) :=
  match lookup.payload, definitions.ruleContexts lookup, options.pairLimit with
  | .positioning (.pairs firsts seconds adjustments), .ok contexts, some limit =>
      if isPlainPairs contexts (.pairs firsts seconds adjustments)
          && !(LookupId.ofName lookup.name).isPiece then
        let divided := do
          let pairs ← definitions.pairRules lookup.location firsts seconds adjustments
          pairPieces definitions lookup.location limit pairs
        divided.toOption.getD []
      else []
  | _, _, _ => []

/-- The names that are made up for a lookup: of its helper, and of its pieces behind the first. -/
def madeUpNames (definitions : Definitions) (options : Options) (lookup : LookupDefinition) :
    List String :=
  (if needsHelper definitions lookup then [helperName lookup.name] else [])
    ++ (List.range' 1 ((dividedPairs definitions options lookup).length - 1)).map
      (LookupId.pieceName lookup.name)

theorem dividedPairs_of_substitution
    {substitution : Source.Substitution}
    (payload : lookup.payload = .substitution substitution) :
    dividedPairs definitions options lookup = [] := by
  simp [dividedPairs, payload]

theorem dividedPairs_of_contextual
    {positioning : Source.Positioning}
    {contexts : List RuleContext}
    (payload : lookup.payload = .positioning positioning)
    (surrounded : definitions.ruleContexts lookup = .ok contexts)
    (noPairs : isPlainPairs contexts positioning = false) :
    dividedPairs definitions options lookup = [] := by
  unfold dividedPairs
  rw [payload, surrounded]
  cases positioning with
  | pairs => cases options.pairLimit <;> simp [noPairs]
  | _ => rfl

theorem dividedPairs_of_divided
    {firsts seconds : List Source.Coverage}
    {adjustments : List Source.PairAdjustment}
    {contexts : List RuleContext}
    {limit : Nat}
    {pairs : List PairRule}
    {pieces : List (List Feature.Rule)}
    (payload : lookup.payload = .positioning (.pairs firsts seconds adjustments))
    (surrounded : definitions.ruleContexts lookup = .ok contexts)
    (plain : isPlainPairs contexts (.pairs firsts seconds adjustments))
    (limited : options.pairLimit = some limit)
    (noPiece : (LookupId.ofName lookup.name).isPiece = false)
    (resolved : definitions.pairRules lookup.location firsts seconds adjustments = .ok pairs)
    (divided : pairPieces definitions lookup.location limit pairs = .ok pieces) :
    dividedPairs definitions options lookup = pieces := by
  unfold dividedPairs
  rw [payload, surrounded, limited]
  simp only [plain, noPiece, Bool.not_false, Bool.and_self, if_true, resolved]
  exact congrArg (fun result => result.toOption.getD []) divided

theorem length_dividedPairs_of_staysWhole
    {firsts seconds : List Source.Coverage}
    {adjustments : List Source.PairAdjustment}
    {contexts : List RuleContext}
    {draft : CompiledLookup}
    {pairs : List PairRule}
    (payload : lookup.payload = .positioning (.pairs firsts seconds adjustments))
    (surrounded : definitions.ruleContexts lookup = .ok contexts)
    (plain : isPlainPairs contexts (.pairs firsts seconds adjustments))
    (resolved : definitions.pairRules lookup.location firsts seconds adjustments = .ok pairs)
    (own : draft.id = .ofName lookup.name)
    (stays : StaysWhole definitions options lookup draft pairs) :
    (dividedPairs definitions options lookup).length - 1 = 0 := by
  cases limited : options.pairLimit with
  | none => simp [dividedPairs, payload, surrounded, limited]
  | some limit =>
      cases piece : (LookupId.ofName lookup.name).isPiece with
      | true => simp [dividedPairs, payload, surrounded, limited, piece]
      | false =>
          obtain ⟨pieces, divided, few⟩ := stays limit limited (by rw [own, piece])
          rw [dividedPairs_of_divided payload surrounded plain limited piece resolved divided]
          omega

/-- The lookups for a definition have its name and the names that are made up for it. -/
theorem Translates.mem_sourceNames_iff
    (translated : Translates definitions options lookup drafts) :
    name ∈ drafts.map CompiledLookup.sourceName ↔
      name = lookup.name ∨ name ∈ madeUpNames definitions options lookup := by
  unfold madeUpNames
  cases translated with
  | substitution _ _ payload =>
      rw [needsHelper_of_substitution payload, dividedPairs_of_substitution payload]
      simp [draftOf]
  | @positioning _ contexts positioning _ _ surrounded payload _ translated =>
      rw [needsHelper_of_positioning payload surrounded]
      cases translated with
      | whole shape plain resolved stays =>
          subst shape
          rw [any_appliesHelper_of_isPlainPairs plain,
            length_dividedPairs_of_staysWhole payload surrounded plain resolved rfl stays]
          simp [draftOf]
      | @cut _ _ _ _ _ pieces shape plain resolved limited noPiece divided several =>
          subst shape
          have first : LookupId.pieceName lookup.name 0 = lookup.name := if_pos rfl
          obtain ⟨further, length⟩ : ∃ further, pieces.length = further + 1 :=
            ⟨pieces.length - 1, by omega⟩
          rw [any_appliesHelper_of_isPlainPairs plain,
            dividedPairs_of_divided payload surrounded plain limited noPiece resolved divided,
            map_sourceName_pieceDrafts, length, Nat.add_sub_cancel, List.range'_succ,
            List.map_cons, List.mem_cons]
          simp [draftOf, first]
      | contextual noPairs =>
          rw [dividedPairs_of_contextual payload surrounded noPairs]
          split <;> simp [draftOf, helperDraft, or_comm]

/-! ## The lookups of a project -/

/-- The project defines a lookup of the name, in any case. -/
def DefinesLookup (statements : List Statement) (name : String) : Prop :=
  ∃ lookup ∈ lookupsOf statements, Text.lowercase lookup.name = Text.lowercase name

/-- The name has been made up for a lookup of the project, in any case. -/
def MadeUp (definitions : Definitions) (options : Options) (statements : List Statement)
    (name : String) : Prop :=
  ∃ lookup ∈ lookupsOf statements, ∃ other ∈ madeUpNames definitions options lookup,
    Text.lowercase other = Text.lowercase name

instance (statements : List Statement) (name : String) :
    Decidable (DefinesLookup statements name) :=
  inferInstanceAs (Decidable (∃ lookup ∈ lookupsOf statements, _))

instance (definitions : Definitions) (options : Options) (statements : List Statement)
    (name : String) : Decidable (MadeUp definitions options statements name) :=
  inferInstanceAs (Decidable (∃ lookup ∈ lookupsOf statements, _))

theorem mem_keys_of_related
    {lookups : List LookupDefinition}
    {translations : List (List CompiledLookup)}
    (related : List.Forall₂ (Translates definitions options) lookups translations)
    {key : String} :
    key ∈ translations.flatten.map CompiledLookup.key ↔
      ∃ lookup ∈ lookups, Text.lowercase lookup.name = key
        ∨ ∃ other ∈ madeUpNames definitions options lookup, Text.lowercase other = key := by
  induction related with
  | nil => simp
  | @cons lookup drafts lookups translations translated _ ih =>
      have own : key ∈ drafts.map CompiledLookup.key ↔
          Text.lowercase lookup.name = key
            ∨ ∃ other ∈ madeUpNames definitions options lookup, Text.lowercase other = key := by
        have keys : drafts.map CompiledLookup.key =
            (drafts.map CompiledLookup.sourceName).map Text.lowercase := by
          rw [List.map_map]
          rfl
        rw [keys, List.mem_map]
        simp only [translated.mem_sourceNames_iff, or_and_right, exists_or, exists_eq_left]
      rw [List.flatten_cons, List.map_append, List.mem_append, own, ih, List.exists_mem_cons_iff]

/-- The lookups that have been compiled are those with names of the project or made up. -/
theorem mem_keys_of_ofStatements
    {log : List Notice}
    (compiled : ofStatements definitions options statements = ⟨log, .ok state⟩) :
    Text.lowercase name ∈ state.lookups.keys ↔
      DefinesLookup statements name ∨ MadeUp definitions options statements name := by
  obtain ⟨translations, related, entered⟩ := entered_of_ofStatements compiled
  have keys (rename : String → String) :
      (translations.flatten.map (CompiledLookup.relabel rename)).map CompiledLookup.key =
        translations.flatten.map CompiledLookup.key := by
    rw [List.map_map]
    rfl
  have empty : Text.lowercase name ∉ ({} : Compilation).lookups.keys := List.not_mem_nil
  rw [entered.lookups_eq, mem_keys_enter, keys, mem_keys_of_related related]
  simp only [empty, false_or, and_or_left, exists_or]
  rfl

end Compilation

open Compilation

/-! ## References of features -/

namespace Definitions

variable {features : LanguageSystems} {uses : List FeatureUse} {name : String}

/-- The names by which the features of a project refer to lookups. -/
def referencesOf (statements : List Statement) : List String :=
  (featureUses statements).flatMap (·.references.lookups)

/-- The lookups of a table of features are those of its entries. -/
theorem lookups?_of_mem_entries
    {feature : Tag × OrderedMap Tag (OrderedMap Tag FeatureLookups)}
    {script : Tag × OrderedMap Tag FeatureLookups}
    {language : Tag × FeatureLookups}
    (listed : feature ∈ features.entries)
    (inside : script ∈ feature.2.entries)
    (recorded : language ∈ script.2.entries) :
    features.lookups? feature.1 script.1 language.1 = some language.2 := by
  simp only [LanguageSystems.lookups?, OrderedMap.get?_of_mem listed,
    OrderedMap.get?_of_mem inside, OrderedMap.get?_of_mem recorded, Option.bind_some]

theorem mem_referencedNames_iff :
    name ∈ features.referencedNames ↔ ∃ feature script language references,
      features.lookups? feature script language = some references
        ∧ name ∈ references.lookups := by
  simp only [LanguageSystems.referencedNames, List.mem_flatMap]
  constructor
  · rintro ⟨feature, listed, script, inside, language, recorded, referenced⟩
    exact ⟨feature.1, script.1, language.1, language.2,
      lookups?_of_mem_entries listed inside recorded, referenced⟩
  · rintro ⟨feature, script, language, references, found, referenced⟩
    obtain ⟨scripts, listed, found⟩ := Option.bind_eq_some_iff.mp found
    obtain ⟨languages, inside, recorded⟩ := Option.bind_eq_some_iff.mp found
    exact ⟨(feature, scripts), OrderedMap.get?_eq_some_iff.mp listed,
      (script, languages), OrderedMap.get?_eq_some_iff.mp inside,
      (language, references), OrderedMap.get?_eq_some_iff.mp recorded, referenced⟩

/-- The recorded references are those of the uses. -/
theorem Records.mem_referencedNames_iff (records : Records features uses) :
    name ∈ features.referencedNames ↔ ∃ use ∈ uses, name ∈ use.references.lookups := by
  rw [Definitions.mem_referencedNames_iff]
  constructor
  · rintro ⟨feature, script, language, references, found, referenced⟩
    exact ⟨_, records.lookups?_eq_some_iff.mp found, referenced⟩
  · rintro ⟨use, used, referenced⟩
    exact ⟨_, _, _, _, records.lookups?_eq_some_iff.mpr used, referenced⟩

end Definitions

open Definitions (FeatureUse featureUses referencesOf)

namespace MergedLookups

variable (merged : MergedLookups)

/-- The report of a reference that some uses of features make, to a lookup that is not there. -/
def ReportsMissing (uses : List FeatureUse) (error : ConversionError) : Prop :=
  ∃ use ∈ uses, ∃ name ∈ use.references.lookups, ¬merged.Defines name
    ∧ error = .undefinedLookup name use.feature use.references.location

/-- Features are written unless they refer to a lookup that is not there. -/
theorem failsOnly_featureBlocks
    {features : LanguageSystems}
    {uses : List FeatureUse}
    (records : Definitions.Records features uses) :
    FailsOnly (merged.ReportsMissing uses) (merged.featureBlocks features).result := by
  refine Outcome.failsOnly_result_mapM fun feature listed => ?_
  refine Outcome.failsOnly_result_bind_iff.mpr ⟨?_, fun _ _ => failsOnly_ok _⟩
  refine Outcome.failsOnly_result_mapM fun script inside => ?_
  have inside := (scriptsInOrder_perm feature.2.entries).mem_iff.mp inside
  refine Outcome.failsOnly_result_mapM fun language recorded => ?_
  refine Outcome.failsOnly_result_bind_iff.mpr ⟨?_, fun _ _ => failsOnly_ok _⟩
  refine Outcome.failsOnly_result_foldlM fun labels name referenced => ?_
  have used := records.lookups?_eq_some_iff.mp
    (Definitions.lookups?_of_mem_entries listed inside recorded)
  unfold addReference
  cases found : merged.labels.get? (Text.lowercase name) with
  | none =>
      refine Outcome.failsOnly_result_fail_iff.mpr ⟨_, used, name, referenced, ?_, rfl⟩
      rw [Defines, ← OrderedMap.contains_iff_mem_keys, OrderedMap.contains, found]
      simp
  | some label =>
      cases label with
      | none => exact failsOnly_ok _
      | some label => exact failsOnly_ok _

end MergedLookups

/-! ## Conversions -/

section Conversions

variable {statements : List Statement} {glyphOrder : Option GlyphOrder} {options : Options}
  {definitions : Definitions}

/-- The definitions are those of the project, and all of its lookups can be compiled. -/
structure Compiles (statements : List Statement) (glyphOrder : Option GlyphOrder)
    (options : Options) (definitions : Definitions) : Prop where
  collected : ∃ log, Definitions.collect statements glyphOrder = ⟨log, .ok definitions⟩
  compiled : ∃ log state, ofStatements definitions options statements = ⟨log, .ok state⟩

/-- The report of a feature that refers to a name which is not that of any lookup. -/
def ReportsUndefined (definitions : Definitions) (options : Options)
    (statements : List Statement) (error : ConversionError) : Prop :=
  ∃ use ∈ featureUses statements, ∃ name ∈ use.references.lookups,
    ¬DefinesLookup statements name ∧ ¬MadeUp definitions options statements name
      ∧ error = .undefinedLookup name use.feature use.references.location

/-- No feature file is made of a project in which a feature refers to an undefined lookup. -/
def CatchesUndefined (statements : List Statement) (glyphOrder : Option GlyphOrder)
    (options : Options) : Prop :=
  (∃ name ∈ referencesOf statements, ¬DefinesLookup statements name) →
    ∃ error, (convert statements glyphOrder options).result = .error error

theorem exists_compiles
    {log : List Notice}
    {document : Document}
    (converted : convert statements glyphOrder options = ⟨log, .ok document⟩) :
    ∃ definitions, Compiles statements glyphOrder options definitions := by
  obtain ⟨_, definitions, _, collected, rest, _⟩ := Outcome.bind_eq_ok_iff.mp converted
  obtain ⟨_, _, _, compiled, _⟩ := Outcome.bind_eq_ok_iff.mp rest
  exact ⟨definitions, ⟨_, collected⟩, ⟨_, _, compiled⟩⟩

/-- What is left of a conversion once the lookups have been compiled. -/
theorem result_convert
    {log compiling : List Notice}
    {state : Compilation}
    (collected : Definitions.collect statements glyphOrder = ⟨log, .ok definitions⟩)
    (compiled : ofStatements definitions options statements = ⟨compiling, .ok state⟩) :
    (convert statements glyphOrder options).result = (assemble definitions state).result := by
  rw [convert, Outcome.result_bind, collected]
  exact (Outcome.result_bind ..).trans (by rw [compiled]; rfl)

/-- Once its lookups have been compiled, a project is converted if no reference is undefined. -/
theorem Compiles.converted_iff (compiles : Compiles statements glyphOrder options definitions) :
    (∃ document, (convert statements glyphOrder options).result = .ok document) ↔
      ∀ name ∈ referencesOf statements,
        DefinesLookup statements name ∨ MadeUp definitions options statements name := by
  obtain ⟨⟨_, collected⟩, _, state, compiled⟩ := compiles
  obtain ⟨_, merged, found, labels⟩ := state.exists_labelsLookups_of_merge
  have records := Definitions.records_of_collect collected
  have resolves := resolves_assemble definitions labels found
  have references : (∀ name ∈ referencesOf statements,
        DefinesLookup statements name ∨ MadeUp definitions options statements name) ↔
      ∀ name ∈ definitions.features.referencedNames,
        Text.lowercase name ∈ state.lookups.keys := by
    simp only [referencesOf, List.mem_flatMap, records.mem_referencedNames_iff,
      mem_keys_of_ofStatements compiled]
  rw [references, result_convert collected compiled]
  constructor
  · rintro ⟨document, assembled⟩
    by_contra undefined
    obtain ⟨_, _, _, failed⟩ := resolves.of_undefined undefined
    rw [failed] at assembled
    cases assembled
  · exact fun defined => ⟨_, resolves.of_defined defined⟩

theorem Compiles.failsOnly_convert
    (compiles : Compiles statements glyphOrder options definitions) :
    FailsOnly (ReportsUndefined definitions options statements)
      (convert statements glyphOrder options).result := by
  obtain ⟨⟨_, collected⟩, _, state, compiled⟩ := compiles
  obtain ⟨_, merged, found, labels⟩ := state.exists_labelsLookups_of_merge
  have records := Definitions.records_of_collect collected
  have reported : FailsOnly (ReportsUndefined definitions options statements)
      (merged.featureBlocks definitions.features).result := by
    refine (merged.failsOnly_featureBlocks records).mono fun error missing => ?_
    obtain ⟨use, used, name, referenced, absent, same⟩ := missing
    rw [MergedLookups.Defines, labels.keys_eq, mem_keys_of_ofStatements compiled, not_or]
      at absent
    exact ⟨use, used, name, referenced, absent.1, absent.2, same⟩
  rw [result_convert collected compiled, assemble, Outcome.result_bind, found]
  exact Outcome.failsOnly_result_bind_iff.mpr ⟨reported, fun _ _ => failsOnly_ok _⟩

/--
Undefined lookups are caught unless each of them is called like the helper or a piece of a lookup:
a project is converted to a feature file in spite of them exactly if its lookups can be compiled and
every name to which a feature refers is defined or has been made up.  A conversion that ends after
its lookups have been compiled reports a reference whose name is neither.
-/
theorem convert_catchesUndefined_iff
    (statements : List Statement)
    (glyphOrder : Option GlyphOrder)
    (options : Options) :
    (CatchesUndefined statements glyphOrder options ↔
        ∀ definitions, Compiles statements glyphOrder options definitions →
          (∀ name ∈ referencesOf statements,
            DefinesLookup statements name ∨ MadeUp definitions options statements name) →
          ∀ name ∈ referencesOf statements, DefinesLookup statements name)
      ∧ ∀ definitions, Compiles statements glyphOrder options definitions →
          FailsOnly (ReportsUndefined definitions options statements)
            (convert statements glyphOrder options).result := by
  refine ⟨⟨fun catches definitions compiles known => ?_, fun only undefined => ?_⟩,
    fun _ => Compiles.failsOnly_convert⟩
  · by_contra undefined
    obtain ⟨error, failed⟩ := catches (by simpa using undefined)
    obtain ⟨document, converted⟩ := compiles.converted_iff.mpr known
    rw [failed] at converted
    cases converted
  · cases converted : convert statements glyphOrder options with
    | mk log result =>
        cases result with
        | error error => exact ⟨error, rfl⟩
        | ok document =>
            obtain ⟨definitions, compiles⟩ := exists_compiles converted
            have known := compiles.converted_iff.mp ⟨document, congrArg Outcome.result converted⟩
            obtain ⟨name, referenced, undefined⟩ := undefined
            exact (undefined (only definitions compiles known name referenced)).elim

end Conversions

/-- A feature that refers to a lookup that is not there, behind one that needs a helper. -/
def kernAndMissing : List Statement :=
  [kernFeature ["kern", "missing"], spacing "kern"]

theorem convert_catchesUndefined_iff_kernAndMissing :
    ∃ definitions, Compiles kernAndMissing none {} definitions
      ∧ "missing" ∈ referencesOf kernAndMissing ∧ ¬DefinesLookup kernAndMissing "missing"
      ∧ CatchesUndefined kernAndMissing none {}
      ∧ ∃ error, (convert kernAndMissing none {}).result = .error error
        ∧ ReportsUndefined definitions {} kernAndMissing error := by
  have referenced : "missing" ∈ referencesOf kernAndMissing := by decide +kernel
  have undefined : ¬DefinesLookup kernAndMissing "missing" := by decide +kernel
  have evaluated : ((Definitions.collect kernAndMissing none).result.toOption.bind
      fun definitions => if MadeUp definitions {} kernAndMissing "missing" then none
        else (ofStatements definitions {} kernAndMissing).result.toOption).isSome := by
    decide +kernel
  obtain ⟨state, found⟩ := Option.isSome_iff_exists.mp evaluated
  obtain ⟨definitions, collected, compiled⟩ := Option.bind_eq_some_iff.mp found
  have notMadeUp : ¬MadeUp definitions {} kernAndMissing "missing" := by
    intro madeUp
    simp [madeUp] at compiled
  rw [if_neg notMadeUp] at compiled
  have collectedOk := except_eq_ok_of_toOption collected
  have compiles : Compiles kernAndMissing none {} definitions :=
    ⟨⟨_, by rw [← collectedOk]⟩, ⟨_, state, by rw [← except_eq_ok_of_toOption compiled]⟩⟩
  obtain ⟨iff, reports⟩ := convert_catchesUndefined_iff kernAndMissing none {}
  have catches : CatchesUndefined kernAndMissing none {} := by
    refine iff.mpr fun other others known => ?_
    obtain ⟨⟨_, again⟩, _⟩ := others
    rw [again, Except.ok.injEq] at collectedOk
    subst collectedOk
    exact ((known _ referenced).elim undefined notMadeUp).elim
  obtain ⟨error, failed⟩ := catches ⟨_, referenced, undefined⟩
  exact ⟨definitions, compiles, referenced, undefined, catches, error, failed,
    reports definitions compiles error failed⟩

/-- A feature that refers to the helper of a lookup, which is not a lookup of the project. -/
def helperReferenced : List Statement :=
  [kernFeature ["kern target"], spacing "kern"]

/-- A feature may refer to a helper by the name that has been made up for it. -/
theorem exists_not_catchesUndefined :
    ¬ ∀ (statements : List Statement) (glyphOrder : Option GlyphOrder) (options : Options),
      CatchesUndefined statements glyphOrder options := by
  intro always
  obtain ⟨error, failed⟩ := always helperReferenced none {} ⟨"kern target", by decide +kernel⟩
  obtain ⟨log, document, converted⟩ : ∃ log document,
      convert helperReferenced none {} = ⟨log, .ok document⟩ :=
    Outcome.exists_of_isOk (by decide +kernel)
  rw [converted] at failed
  cases failed

end GlyphLayout
