import GlyphLayout.Proofs.Cutting
import GlyphLayout.Proofs.Retention
import GlyphLayout.Proofs.SubstitutionArity

/-!
# Lookups with one exception

A lookup whose only context rules it out applies everywhere else.  Its rules first say where it
does not apply, and then what they would say without any context: a substitution has the same
rules once more with their input marked, and a positioning applies its plain rules, which a helper
has, to the same input sequences.
-/

namespace GlyphLayout

open Feature (Glyphs Rule)
open Source (ContextDefinition LookupDefinition Mapping Positioning Substitution SubstitutionKind)

/-- A substitution with its input marked, even if nothing stands around it. -/
def Feature.Rule.marked : Rule → Rule
  | singleSub context target replacement =>
      singleSub { context with forced := true } target replacement
  | multipleSub context target replacement =>
      multipleSub { context with forced := true } target replacement
  | ligatureSub context components replacement =>
      ligatureSub { context with forced := true } components replacement
  | reverseSub context target replacement =>
      reverseSub { context with forced := true } target replacement
  | rule => rule

namespace Definitions

variable {definitions : Definitions}

/-! ## Substitutions -/

theorem substitutionRule_forced
    (kind : SubstitutionKind)
    (context : Feature.Context)
    (input output : List Glyphs) :
    substitutionRule kind { context with forced := true } input output =
      (substitutionRule kind context input output).map Rule.marked := by
  unfold substitutionRule
  split <;> rfl

/-- A mapping that has a rule everywhere else has the same rule, unmarked, everywhere. -/
theorem exists_of_mappingRule_elsewhere
    {kind : SubstitutionKind}
    {mapping : Mapping}
    {log : List Notice}
    {written : Option Rule}
    (elsewhere : definitions.mappingRule kind .elsewhere mapping = ⟨log, .ok written⟩) :
    ∃ plain, definitions.mappingRule kind {} mapping = ⟨log, .ok plain⟩
      ∧ written = plain.map Rule.marked := by
  unfold mappingRule at elsewhere ⊢
  split at elsewhere
  · rename_i blank
    obtain ⟨_, _, _, told, result, rfl⟩ := Outcome.bind_eq_ok_iff.mp elsewhere
    cases result
    rw [if_pos blank]
    exact ⟨none, Outcome.bind_eq_ok_iff.mpr ⟨_, _, _, told, rfl, rfl⟩, rfl⟩
  · rename_i filled
    rw [if_neg filled]
    obtain ⟨input, inputResolved, shaped⟩ := Outcome.liftM_bind_eq_ok_iff.mp elsewhere
    obtain ⟨output, outputResolved, shaped⟩ := Outcome.liftM_bind_eq_ok_iff.mp shaped
    have same := substitutionRule_forced kind {} input output
    cases found : substitutionRule kind {} input output with
    | none =>
        rw [found] at same
        simp [RuleContext.elsewhere, same] at shaped
    | some rule =>
        rw [found] at same
        simp only [RuleContext.elsewhere, same, Option.map_some] at shaped
        cases shaped
        refine ⟨some rule, ?_, rfl⟩
        refine Outcome.liftM_bind_eq_ok_iff.mpr ⟨input, inputResolved, ?_⟩
        refine Outcome.liftM_bind_eq_ok_iff.mpr ⟨output, outputResolved, ?_⟩
        simp only [found]
        rfl

/-- The rules of a substitution everywhere else are those without a context, marked. -/
theorem exists_of_substitutionRules_elsewhere
    {substitution : Substitution}
    {log : List Notice}
    {rules : List Rule}
    (elsewhere : definitions.substitutionRules substitution .elsewhere = ⟨log, .ok rules⟩) :
    ∃ later plain, definitions.substitutionRules substitution {} = ⟨later, .ok plain⟩
      ∧ rules = plain.map Rule.marked := by
  obtain ⟨_, written, _, traversed, result, _⟩ := Outcome.bind_eq_ok_iff.mp elsewhere
  cases result
  obtain ⟨later, plain, again, rfl, _⟩ := Outcome.mapM_parallel
    (Option.map Rule.marked) id (fun _ => True) traversed fun mapping _ value head => by
      obtain ⟨plain, same, marked⟩ := exists_of_mappingRule_elsewhere head
      exact ⟨_, plain, same, marked, trivial⟩
  rw [List.map_id] at again
  refine ⟨later, plain.filterMap id, ?_, ?_⟩
  · exact Outcome.bind_eq_ok_iff.mpr ⟨later, plain, [], again, rfl, (List.append_nil _).symm⟩
  · rw [List.filterMap_map, List.map_filterMap]
    rfl

/-- The references for the inputs of those mappings that say something. -/
def inputsOf (definitions : Definitions) (mappings : List Mapping) :
    Except ConversionError (List (List Glyphs)) :=
  (mappings.filter (·.Filled)).mapM fun mapping =>
    definitions.resolve mapping.location mapping.input

/-- In a context that rules a substitution out, a mapping has a rule for its input if it says
something. -/
theorem of_mappingRule_ignored
    {kind : SubstitutionKind}
    {around : Feature.Context}
    {mapping : Mapping}
    {log : List Notice}
    {written : Option Rule}
    (ignored : definitions.mappingRule kind ⟨around, true⟩ mapping = ⟨log, .ok written⟩) :
    (¬ mapping.Filled ∧ written = none)
      ∨ mapping.Filled ∧ ∃ input, definitions.resolve mapping.location mapping.input = .ok input
          ∧ written = some (.ignoreSub around input) := by
  cases mapsTo_of_mappingRule ignored with
  | blank empty => exact .inl ⟨empty, rfl⟩
  | ignored filled _ resolved => exact .inr ⟨filled, _, resolved, rfl⟩
  | written _ applies => cases applies

theorem exists_of_mapM_mappingRule_ignored
    {kind : SubstitutionKind}
    {around : Feature.Context}
    {mappings : List Mapping}
    {log : List Notice}
    {written : List (Option Rule)}
    (traversed : mappings.mapM (definitions.mappingRule kind ⟨around, true⟩) =
      ⟨log, .ok written⟩) :
    ∃ inputs, definitions.inputsOf mappings = .ok inputs
      ∧ written.filterMap id = inputs.map (.ignoreSub around) := by
  unfold inputsOf
  induction mappings generalizing log written with
  | nil =>
      cases traversed
      exact ⟨[], rfl, rfl⟩
  | cons mapping rest ih =>
      rw [List.mapM_cons] at traversed
      obtain ⟨_, first, _, head, traversed, _⟩ := Outcome.bind_eq_ok_iff.mp traversed
      obtain ⟨_, others, _, tail, result, _⟩ := Outcome.bind_eq_ok_iff.mp traversed
      cases result
      obtain ⟨inputs, each, same⟩ := ih tail
      rcases of_mappingRule_ignored head with ⟨blank, rfl⟩ | ⟨filled, input, resolved, rfl⟩
      · refine ⟨inputs, ?_, same⟩
        rw [List.filter_cons_of_neg (by simpa using blank)]
        exact each
      · refine ⟨input :: inputs, ?_, ?_⟩
        · rw [List.filter_cons_of_pos (by simpa using filled), List.mapM_cons, resolved, each]
          rfl
        · exact congrArg (List.cons _) same

/-- In a context that rules it out, a substitution has a rule for the input of each mapping. -/
theorem exists_of_substitutionRules_ignored
    {substitution : Substitution}
    {around : Feature.Context}
    {log : List Notice}
    {rules : List Rule}
    (written : definitions.substitutionRules substitution ⟨around, true⟩ = ⟨log, .ok rules⟩) :
    ∃ inputs, definitions.inputsOf substitution.mappings = .ok inputs
      ∧ rules = inputs.map (.ignoreSub around) := by
  obtain ⟨_, _, _, traversed, result, _⟩ := Outcome.bind_eq_ok_iff.mp written
  cases result
  exact exists_of_mapM_mappingRule_ignored traversed

/-! ## Contexts -/

/-- A lookup that is ruled out in its only context is written for that context and for all others. -/
theorem ruleContexts_of_only
    {lookup : LookupDefinition}
    {context : ContextDefinition}
    {contexts : List RuleContext}
    (only : lookup.contexts = [context])
    (except : context.kind = .except)
    (surrounded : definitions.ruleContexts lookup = .ok contexts) :
    ∃ around, definitions.ruleContext lookup context = .ok ⟨around, true⟩
      ∧ contexts = [⟨around, true⟩, .elsewhere] := by
  simp only [ruleContexts, only] at surrounded
  obtain ⟨⟨around, ignored⟩, resolved, result⟩ := except_bind_eq_ok_iff.mp surrounded
  have known := ignored_of_ruleContext resolved
  rw [except] at known
  obtain rfl : ignored = true := known
  cases result
  exact ⟨around, resolved, rfl⟩

end Definitions

namespace Compilation

variable {definitions : Definitions} {options : Options} {lookup : LookupDefinition}

/-! ## Lookups without contexts -/

/-- A limit leaves the rules of a lookup that is translated to a single one. -/
theorem exists_translates_of_unlimited
    {draft : CompiledLookup}
    (unlimited : Translates definitions { options with pairLimit := none } lookup [draft]) :
    ∃ drafts, Translates definitions options lookup drafts
      ∧ drafts.flatMap CompiledLookup.rules = draft.rules := by
  obtain ⟨strict, limit⟩ := options
  cases limit with
  | none => exact ⟨_, unlimited, by simp⟩
  | some limit =>
      obtain ⟨cut, translated, parts, divided, rfl⟩ := unlimited.recut limit
      obtain ⟨part, _, divides, empty, rfl⟩ := List.forall₂_cons_left_iff.mp divided
      cases empty
      exact ⟨_, translated, by simpa using divides.flatMap_rules⟩

theorem translates_of_plainRules
    {positioning : Positioning}
    {plain : PlainRules}
    (resolved : definitions.plainRules lookup.location positioning = .ok plain)
    (unlimited : options.pairLimit = none)
    (draft : CompiledLookup) :
    ∃ kind, TranslatesPositioning definitions options lookup positioning [{}] draft
      [{ draft with kind, rules := plain.rules }] := by
  have stays (pairs : List PairRule) : StaysWhole definitions options lookup draft pairs := by
    intro limit limited
    rw [unlimited] at limited
    cases limited
  have contextual (noPairs : isPlainPairs [{}] positioning = false) :
      TranslatesPositioning definitions options lookup positioning [{}] draft
        [{ draft with kind := .positioning, rules := [plain.rules].flatten }] := by
    have written : [{}].mapM
        (contextRules definitions lookup positioning (helperName draft.sourceName)) =
          .ok [plain.rules] := by
      rw [List.mapM_cons, contextRules_of_plain rfl resolved]
      rfl
    exact .contextual noPairs (fun _ => resolved) (fun _ => List.forall_mem_singleton.mpr nofun)
      written
  rw [List.flatten_singleton] at contextual
  cases positioning with
  | pairs firsts seconds adjustments =>
      obtain ⟨pairs, paired, result⟩ := except_bind_eq_ok_iff.mp resolved
      cases result
      exact ⟨.pairs, .whole rfl rfl paired (stays pairs)⟩
  | singles | attach | cursive => exact ⟨.positioning, contextual rfl⟩

/-- Without contexts a positioning lookup has its plain rules. -/
theorem exists_translates_of_plain
    (options : Options)
    {positioning : Positioning}
    {flags : Feature.Flags}
    {plain : PlainRules}
    (flagged : definitions.lookupFlags lookup = .ok flags)
    (everywhere : lookup.contexts = [])
    (payload : lookup.payload = .positioning positioning)
    (overlaps : OverlapsKnown definitions lookup positioning)
    (resolved : definitions.plainRules lookup.location positioning = .ok plain) :
    ∃ drafts, Translates definitions options lookup drafts
      ∧ drafts.flatMap CompiledLookup.rules = plain.rules := by
  have surrounded : definitions.ruleContexts lookup = .ok [{}] := by
    simp only [Definitions.ruleContexts, everywhere]
    rfl
  obtain ⟨kind, translated⟩ : ∃ kind,
      TranslatesPositioning definitions { options with pairLimit := none } lookup positioning [{}]
        { draftOf lookup flags with useExtension := definitions.useExtension }
        [{ draftOf lookup flags with
            kind
            useExtension := definitions.useExtension
            rules := plain.rules }] :=
    translates_of_plainRules resolved rfl _
  exact exists_translates_of_unlimited
    (.positioning flagged surrounded payload overlaps translated)

/-- Whatever labels are in use, the definition alone is compiled to lookups with these rules. -/
def CompilesTo (definitions : Definitions) (options : Options) (lookup : LookupDefinition)
    (rules : List Rule) : Prop :=
  ∀ labels, ∃ log compiled,
    compiledAlone definitions options labels lookup = ⟨log, .ok compiled⟩
      ∧ compiled.flatMap CompiledLookup.rules = rules

theorem compilesTo_of_translates
    {drafts : List CompiledLookup}
    {rules : List Rule}
    (translated : Translates definitions options lookup drafts)
    (joined : drafts.flatMap CompiledLookup.rules = rules)
    (plain : ∀ rule ∈ rules, rule.IsPlain) :
    CompilesTo definitions options lookup rules := by
  intro labels
  obtain ⟨log, _, _, compiled⟩ := exists_compiledAlone_of_translates translated labels
  refine ⟨log, _, compiled, ?_⟩
  subst joined
  rw [List.flatMap_map]
  refine List.flatMap_congr fun draft member => ?_
  exact Rule.map_relabel_of_isPlain fun rule inside =>
    plain rule (List.mem_flatMap.mpr ⟨draft, member, inside⟩)

/-! ## Lookups with one exception -/

/-- The lookup that has been compiled under a name, in any case. -/
def lookupOf? (state : Compilation) (name : String) : Option CompiledLookup :=
  state.lookups.get? (Text.lowercase name)

/-- What a definition has been translated to is found under its own name and those generated from
it. -/
theorem lookupOf?_of_entered
    {drafts : List CompiledLookup}
    {draft : CompiledLookup}
    {state next : Compilation}
    {log : List Notice}
    (translated : Translates definitions options lookup drafts)
    (entered : Entered state drafts log next)
    (member : draft ∈ drafts) :
    next.lookupOf? draft.sourceName = some (draft.relabel next.labels.identifierOf) := by
  have nodup : ((drafts.map (CompiledLookup.relabel next.labels.identifierOf)).map
      CompiledLookup.key).Nodup := by
    rw [CompiledLookup.map_key_relabel]
    exact nodup_keys_of_namedAfter translated.namedAfter
  rw [lookupOf?, entered.lookups_eq]
  exact get?_enter_of_mem nodup (List.mem_map_of_mem member)

theorem obstacle?_eq_none
    {positioning : Positioning}
    (forward : lookup.reversal = false)
    (joinsNothing : ∀ exits entries, positioning ≠ .cursive exits entries) :
    obstacle? lookup positioning = none := by
  cases positioning with
  | cursive exits entries => exact (joinsNothing exits entries rfl).elim
  | pairs | singles | attach => simp [obstacle?, forward]

/-- A substitution with one exception leaves out its inputs there, and is marked elsewhere. -/
theorem exists_of_substitution_elsewhere
    {flags : Feature.Flags}
    {substitution : Substitution}
    {around : Feature.Context}
    {log : List Notice}
    {rules : List (List Rule)}
    (flagged : definitions.lookupFlags lookup = .ok flags)
    (payload : lookup.payload = .substitution substitution)
    (written : [⟨around, true⟩, .elsewhere].mapM (definitions.substitutionRules substitution) =
      ⟨log, .ok rules⟩) :
    ∃ inputs plain, definitions.inputsOf substitution.mappings = .ok inputs
      ∧ CompilesTo definitions options { lookup with contexts := [] } plain
      ∧ rules.flatten = inputs.map (.ignoreSub around) ++ plain.map Rule.marked := by
  obtain ⟨_, _, ⟨_, exception⟩, rest, rfl⟩ :=
    List.forall₂_cons_left_iff.mp (Outcome.exists_mapM_eq_ok_iff.mp ⟨log, written⟩)
  obtain ⟨_, _, ⟨_, elsewhere⟩, empty, rfl⟩ := List.forall₂_cons_left_iff.mp rest
  cases empty
  obtain ⟨inputs, resolved, rfl⟩ := Definitions.exists_of_substitutionRules_ignored exception
  obtain ⟨later, plain, again, rfl⟩ := Definitions.exists_of_substitutionRules_elsewhere elsewhere
  obtain ⟨_, everywhere⟩ := Outcome.exists_mapM_eq_ok_iff.mpr (.cons ⟨later, again⟩ .nil)
  refine ⟨inputs, plain, resolved, ?_, by simp⟩
  have translated : Translates definitions options { lookup with contexts := [] }
      [{ draftOf { lookup with contexts := [] } flags with rules := [plain].flatten }] :=
    .substitution flagged rfl payload everywhere
  refine compilesTo_of_translates translated (by simp) ?_
  exact Definitions.isPlain_of_substitutionRules again

/-- A positioning lookup with one exception applies its helper elsewhere, to the same inputs. -/
theorem exists_of_positioning_elsewhere
    (options : Options)
    {flags : Feature.Flags}
    {positioning : Positioning}
    {around : Feature.Context}
    {target : String}
    {plain : PlainRules}
    {rules : List (List Rule)}
    (flagged : definitions.lookupFlags lookup = .ok flags)
    (payload : lookup.payload = .positioning positioning)
    (overlaps : OverlapsKnown definitions lookup positioning)
    (free : obstacle? lookup positioning = none)
    (resolved : definitions.plainRules lookup.location positioning = .ok plain)
    (written : [⟨around, true⟩, .elsewhere].mapM
      (contextRules definitions lookup positioning target) = .ok rules) :
    ∃ inputs, definitions.inputSequences lookup.location positioning = .ok inputs
      ∧ CompilesTo definitions options { lookup with contexts := [] } plain.rules
      ∧ rules.flatten = inputs.map (.ignorePos around)
          ++ inputs.map fun input => .chainPos { forced := true }
              (input.map fun item => (item, some target)) := by
  obtain ⟨_, _, exception, rest, rfl⟩ :=
    List.forall₂_cons_left_iff.mp (except_mapM_eq_ok_iff.mp written)
  obtain ⟨_, _, elsewhere, empty, rfl⟩ := List.forall₂_cons_left_iff.mp rest
  cases empty
  obtain ⟨inputs, sequences⟩ : ∃ inputs,
      definitions.inputSequences lookup.location positioning = .ok inputs := by
    simp only [contextRules, RuleContext.isContextual, free] at exception
    obtain ⟨inputs, sequences, _⟩ := except_bind_eq_ok_iff.mp exception
    exact ⟨inputs, sequences⟩
  rw [contextRules_of_inputs rfl free sequences] at exception elsewhere
  cases exception
  cases elsewhere
  obtain ⟨drafts, translated, joined⟩ : ∃ drafts,
      Translates definitions options { lookup with contexts := [] } drafts
        ∧ drafts.flatMap CompiledLookup.rules = plain.rules :=
    exists_translates_of_plain options flagged rfl payload overlaps resolved
  refine ⟨inputs, sequences, ?_, ?_⟩
  · exact compilesTo_of_translates translated joined (Definitions.isPlain_of_plainRules resolved)
  · simp [RuleContext.elsewhere]

/--
A lookup whose only context rules it out says where it does not apply, and then what it would say
without any context.  A substitution does so in its own rules, with their input marked; a
positioning lookup applies a helper, which has its plain rules.
-/
theorem rules_of_exceptOnly
    {context : ContextDefinition}
    {state next : Compilation}
    {log : List Notice}
    (only : lookup.contexts = [context])
    (except : context.kind = .except)
    (compiled : addLookup definitions options state lookup = ⟨log, .ok next⟩) :
    ∃ around own,
      definitions.ruleContext lookup context = .ok ⟨around, true⟩
        ∧ next.lookupOf? lookup.name = some own
        ∧ (∀ substitution, lookup.payload = .substitution substitution →
            ∃ inputs rules, definitions.inputsOf substitution.mappings = .ok inputs
              ∧ CompilesTo definitions options { lookup with contexts := [] } rules
              ∧ own.rules = inputs.map (.ignoreSub around) ++ rules.map Rule.marked)
        ∧ (∀ positioning, lookup.payload = .positioning positioning →
            lookup.reversal = false → (∀ exits entries, positioning ≠ .cursive exits entries) →
            ∃ inputs helper, definitions.inputSequences lookup.location positioning = .ok inputs
              ∧ next.lookupOf? (helperName lookup.name) = some helper
              ∧ CompilesTo definitions options { lookup with contexts := [] } helper.rules
              ∧ own.rules = inputs.map (.ignorePos around)
                  ++ inputs.map fun input => .chainPos { forced := true }
                      (input.map fun item => (item, some helper.label))) := by
  obtain ⟨drafts, translated⟩ := translates_of_addLookup compiled
  obtain ⟨_, _, again, entered⟩ := addLookup_of_translates translated state
  cases compiled.symm.trans again
  have found (draft : CompiledLookup) (member : draft ∈ drafts) :
      next.lookupOf? draft.sourceName = some (draft.relabel next.labels.identifierOf) :=
    lookupOf?_of_entered translated entered member
  cases translated with
  | @substitution flags contexts substitution _ rules flagged surrounded payload written =>
      obtain ⟨around, resolved, rfl⟩ := Definitions.ruleContexts_of_only only except surrounded
      have ownFound := found { draftOf lookup flags with rules := rules.flatten }
        (List.mem_singleton_self _)
      refine ⟨around, _, resolved, ownFound, ?_, ?_⟩
      · intro other same
        cases payload.symm.trans same
        obtain ⟨inputs, plain, inputsOf, compiles, joined⟩ :=
          exists_of_substitution_elsewhere flagged payload written
        refine ⟨inputs, plain, inputsOf, compiles, ?_⟩
        rw [← joined, CompiledLookup.rules_relabel,
          Rule.map_relabel_of_isPlain (Definitions.isPlain_of_mem_flatten written)]
      · intro positioning same
        cases payload.symm.trans same
  | @positioning flags contexts positioning drafts flagged surrounded payload overlaps
      translated =>
      obtain ⟨around, resolved, rfl⟩ := Definitions.ruleContexts_of_only only except surrounded
      have noPairs : isPlainPairs [⟨around, true⟩, .elsewhere] positioning = false := by
        cases positioning <;> rfl
      cases translated with
      | whole _ plain => simp [noPairs] at plain
      | cut _ plain => simp [noPairs] at plain
      | @contextual plain rules _ helped _ written =>
          let parent : CompiledLookup :=
            { draftOf lookup flags with useExtension := definitions.useExtension }
          have ownFound := found { parent with kind := .positioning, rules := rules.flatten }
            (mem_helped_iff.mpr (.inr rfl))
          refine ⟨around, _, resolved, ownFound, ?_, ?_⟩
          · intro substitution same
            cases payload.symm.trans same
          · intro other same forward joinsNothing
            cases payload.symm.trans same
            have free := obstacle?_eq_none forward joinsNothing
            have needed : [⟨around, true⟩, .elsewhere].any (appliesHelper lookup positioning) := by
              simp [appliesHelper, free, RuleContext.isContextual, RuleContext.elsewhere,
                Feature.Context.isContextual]
            have plainResolved := helped needed
            obtain ⟨inputs, sequences, compiles, joined⟩ := exists_of_positioning_elsewhere
              options flagged payload overlaps free plainResolved written
            have helperFound := found (helperDraft parent plain.rules)
              (mem_helped_iff.mpr (.inl ⟨needed, rfl⟩))
            refine ⟨inputs, _, sequences, helperFound, ?_, ?_⟩
            · rw [CompiledLookup.rules_relabel, helperDraft, Rule.map_relabel_of_isPlain
                (Definitions.isPlain_of_plainRules plainResolved)]
              exact compiles
            · simp [joined, Function.comp_def, Rule.relabel, CompiledLookup.relabel, parent,
                helperDraft]

/-- A lookup that does something except behind an x. -/
def exceptBehindX (payload : Source.Payload) : LookupDefinition where
  name := "swash"
  processBase := true
  marks := .all
  direction := some .leftToRight
  reversal := false
  comments := none
  contexts := [⟨.except, [[.glyph "x"]], []⟩]
  payload
  location := ⟨1, 1⟩

/-- A substitution of one glyph; a mapping to nothing says nothing. -/
def swashes : Substitution :=
  ⟨.single, [⟨[.glyph "a"], [.glyph "b"], ⟨1, 1⟩⟩, ⟨[.glyph "c"], [], ⟨1, 1⟩⟩], ⟨1, 1⟩⟩

/-- Two pairs, each in a piece of its own if the limit is low. -/
def closePairs : Positioning :=
  .pairs [[.glyph "A"], [.glyph "T"]] [[.glyph "V"], [.glyph "o"]]
    [⟨1, 1, { advance := some (-10) }, {}⟩, ⟨2, 2, { advance := some (-20) }, {}⟩]

theorem rules_of_exceptOnly_swashesAndClosePairs :
    (∃ log next own rules,
      addLookup { glyphOrder := none } {} {} (exceptBehindX (.substitution swashes)) =
          ⟨log, .ok next⟩
        ∧ next.lookupOf? "swash" = some own
        ∧ CompilesTo { glyphOrder := none } {}
            { exceptBehindX (.substitution swashes) with contexts := [] } rules
        ∧ own.rules =
            .ignoreSub { backtrack := [.glyph "x"] } [.glyph "a"] :: rules.map Rule.marked)
      ∧ ∃ log next own helper,
          addLookup { glyphOrder := none } { pairLimit := some 1 } {}
              (exceptBehindX (.positioning closePairs)) = ⟨log, .ok next⟩
            ∧ next.lookupOf? "swash" = some own
            ∧ next.lookupOf? "swash target" = some helper
            ∧ CompilesTo { glyphOrder := none } { pairLimit := some 1 }
                { exceptBehindX (.positioning closePairs) with contexts := [] } helper.rules
            ∧ own.rules.length = 4 := by
  constructor
  · obtain ⟨log, next, compiled⟩ : ∃ log next,
        addLookup { glyphOrder := none } {} {} (exceptBehindX (.substitution swashes)) =
          ⟨log, .ok next⟩ :=
      Outcome.exists_of_isOk (by decide +kernel)
    obtain ⟨around, own, resolved, found, written, -⟩ := rules_of_exceptOnly rfl rfl compiled
    obtain ⟨inputs, rules, inputsOf, compiles, shape⟩ := written swashes rfl
    cases resolved
    cases inputsOf
    exact ⟨log, next, own, rules, compiled, found, compiles, shape⟩
  · obtain ⟨log, next, compiled⟩ : ∃ log next,
        addLookup { glyphOrder := none } { pairLimit := some 1 } {}
          (exceptBehindX (.positioning closePairs)) = ⟨log, .ok next⟩ :=
      Outcome.exists_of_isOk (by decide +kernel)
    obtain ⟨around, own, resolved, found, -, written⟩ := rules_of_exceptOnly rfl rfl compiled
    obtain ⟨inputs, helper, sequences, helperFound, compiles, shape⟩ :=
      written closePairs rfl rfl nofun
    cases sequences
    exact ⟨log, next, own, helper, compiled, found, helperFound, compiles, by rw [shape]; rfl⟩

end Compilation
end GlyphLayout
