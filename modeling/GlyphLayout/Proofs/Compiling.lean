import GlyphLayout.Proofs.Writing

/-!
# Compiling translations

A lookup that has a translation is compiled to a result, whatever the state, and the drafts of
the translation are entered into the table.
-/

namespace GlyphLayout

open Feature (Rule)
open Source (Coverage Location LookupDefinition PairAdjustment Positioning Statement)

namespace Compilation

variable {definitions : Definitions} {options : Options} {lookup : LookupDefinition}
  {positioning : Positioning} {contexts : List RuleContext}

/-- Entering a lookup whose rules are plain. -/
theorem entered_register_plain
    (draft : CompiledLookup)
    (plain : ∀ rule ∈ draft.rules, rule.IsPlain)
    (state : Compilation)
    (known : state.labels.Knows draft.label) :
    ∃ log next,
      state.register { draft with label := state.labels.identifierOf draft.label } =
          ⟨log, .ok next⟩
        ∧ Entered state [draft] log next := by
  have mentions : ∀ name ∈ draft.mentions, state.labels.Knows name := by
    rw [mentions_of_isPlain plain]
    exact List.forall_mem_singleton.mpr known
  obtain ⟨log, next, registered, _, entered⟩ := entered_register state mentions
  refine ⟨log, next, ?_, entered⟩
  rw [← registered, CompiledLookup.relabel, Rule.map_relabel_of_isPlain plain]

theorem reportOverlaps_of_expanded
    {location : Location}
    {coverages : List Coverage}
    (known : ∃ sets, coverages.mapM (definitions.expand location) = .ok sets)
    (name : String)
    (side : Side) :
    ∃ log, definitions.reportOverlaps location name side coverages = ⟨log, .ok ()⟩ := by
  obtain ⟨sets, expanded⟩ := known
  unfold Definitions.reportOverlaps
  rw [expanded, Outcome.ofExcept_ok_bind]
  exact ⟨_, Outcome.tellIf_eq_ok _ _⟩

theorem addContextual_of_translates
    {plain : PlainRules}
    {rules : List (List Rule)}
    {draft : CompiledLookup}
    (helped : contexts.any (appliesHelper lookup positioning) →
      definitions.plainRules lookup.location positioning = .ok plain)
    (expressible : options.strict → ∀ context ∈ contexts, context.isContextual →
      obstacle? lookup positioning = none)
    (written : contexts.mapM
      (contextRules definitions lookup positioning (helperName draft.sourceName)) = .ok rules)
    (state : Compilation)
    (known : state.labels.Knows draft.label) :
    ∃ log next,
      state.addContextual definitions options lookup positioning contexts
          { draft with label := state.labels.identifierOf draft.label } = ⟨log, .ok next⟩
        ∧ Entered state
            ((if contexts.any (appliesHelper lookup positioning) then
                [helperDraft draft plain.rules]
              else [])
              ++ [{ draft with kind := .positioning, rules := rules.flatten }]) log next := by
  have start : Writes state
      { draft with label := state.labels.identifierOf draft.label, kind := .positioning }
      plain false [] [] { state } :=
    ⟨entered_nil state state (.refl _) id rfl [], rfl, nofun, rfl, by simp⟩
  obtain ⟨log, progress, steps, writes⟩ := start.writeContexts expressible helped written
  simp only [Bool.false_or, List.nil_append] at writes
  have still : progress.state.labels.identifierOf draft.label =
      state.labels.identifierOf draft.label :=
    IdentifierPool.identifierOf_of_grows writes.entered.grows known
  have mentions : ∀ name ∈ CompiledLookup.mentions
      { draft with kind := .positioning, rules := rules.flatten },
      progress.state.labels.Knows name := by
    intro name member
    rcases List.mem_cons.mp member with rfl | inside
    · exact known.mono writes.entered.grows
    · obtain ⟨rule, present, within⟩ := List.mem_flatMap.mp inside
      exact writes.known rule present name within
  obtain ⟨later, next, registered, _, entered⟩ := entered_register progress.state mentions
  refine ⟨log ++ later, next, ?_, writes.entered.trans entered⟩
  refine Outcome.bind_eq_ok_iff.mpr ⟨log, progress, later, steps, ?_, rfl⟩
  rw [← registered, CompiledLookup.relabel, writes.rules_eq, still]

theorem addPairs_of_translates
    {firsts seconds : List Coverage}
    {adjustments : List PairAdjustment}
    {draft : CompiledLookup}
    {drafts : List CompiledLookup}
    (plain : isPlainPairs contexts (.pairs firsts seconds adjustments))
    (label_eq : draft.label = draft.sourceName)
    (translated : TranslatesPositioning definitions options lookup
      (.pairs firsts seconds adjustments) contexts draft drafts)
    (state : Compilation)
    (known : state.labels.Knows draft.label) :
    ∃ log next,
      state.addPairs definitions options lookup.location firsts seconds adjustments
          { draft with label := state.labels.identifierOf draft.label, kind := .pairs } =
            ⟨log, .ok next⟩
        ∧ Entered state drafts log next := by
  unfold addPairs
  cases translated with
  | @whole _ _ _ pairs shape _ resolved stays =>
      cases shape
      have isPair := Definitions.isPair_of_pairRules resolved
      obtain ⟨log, next, registered, entered⟩ := entered_register_plain
        { draft with kind := .pairs, rules := pairs.map PairRule.rule }
        (fun rule member => Definitions.isPlain_of_isPair (isPair rule member)) state known
      refine ⟨log, next, Outcome.liftM_bind_eq_ok_iff.mpr ⟨pairs, resolved, ?_⟩, entered⟩
      cases limited : options.pairLimit with
      | none => exact registered
      | some limit =>
          cases piece : draft.id.isPiece with
          | true =>
              simp only [if_true]
              exact registered
          | false =>
              obtain ⟨pieces, divided, few⟩ := stays limit limited piece
              simp only [Bool.false_eq_true, if_false]
              refine Outcome.liftM_bind_eq_ok_iff.mpr ⟨pieces, divided, ?_⟩
              rw [if_pos few]
              exact registered
  | @cut _ _ _ pairs limit pieces shape _ resolved limited noPiece divided several =>
      cases shape
      have isPlain : ∀ rules ∈ pieces, ∀ rule ∈ rules, rule.IsPlain := by
        intro rules present rule inside
        exact Definitions.isPlain_of_isPair (Definitions.isPair_of_pairRules resolved rule
          (mem_of_mem_pairPieces divided present inside))
      obtain ⟨log, next, added, entered⟩ := entered_addPieces
        { draft with kind := .pairs } label_eq isPlain state known 0
      let notice := Notice.pairsSplit draft.sourceName pieces.length limit
      have told : Entered state [] [notice] state :=
        entered_nil state state (.refl _) id rfl [notice]
      refine ⟨[notice] ++ log, next, Outcome.liftM_bind_eq_ok_iff.mpr ⟨pairs, resolved, ?_⟩,
        told.trans entered⟩
      simp only [limited, noPiece, Bool.false_eq_true, if_false]
      refine Outcome.liftM_bind_eq_ok_iff.mpr ⟨pieces, divided, ?_⟩
      rw [if_neg (by omega)]
      exact Outcome.bind_eq_ok_iff.mpr ⟨[notice], (), log, rfl, added, rfl⟩
  | contextual noPairs => simp [plain] at noPairs

theorem addPositioning_of_translates
    {draft : CompiledLookup}
    {drafts : List CompiledLookup}
    (label_eq : draft.label = draft.sourceName)
    (overlaps : OverlapsKnown definitions lookup positioning)
    (translated :
      TranslatesPositioning definitions options lookup positioning contexts draft drafts)
    (state : Compilation)
    (known : state.labels.Knows draft.label) :
    ∃ log next,
      state.addPositioning definitions options lookup positioning contexts
          { draft with label := state.labels.identifierOf draft.label } = ⟨log, .ok next⟩
        ∧ Entered state drafts log next := by
  have contextual (noPairs : isPlainPairs contexts positioning = false) :
      ∃ log next,
        state.addContextual definitions options lookup positioning contexts
            { draft with label := state.labels.identifierOf draft.label } = ⟨log, .ok next⟩
          ∧ Entered state drafts log next := by
    cases translated with
    | whole _ plain => simp [noPairs] at plain
    | cut _ plain => simp [noPairs] at plain
    | contextual _ helped expressible written =>
        exact addContextual_of_translates helped expressible written state known
  cases positioning with
  | pairs firsts seconds adjustments =>
      obtain ⟨first, firstReported⟩ := reportOverlaps_of_expanded overlaps.1 lookup.name .first
      obtain ⟨second, secondReported⟩ :=
        reportOverlaps_of_expanded overlaps.2 lookup.name .second
      have told : Entered state [] (first ++ second) state :=
        entered_nil state state (.refl _) id rfl _
      have added : ∃ log next,
          (if contexts.all (!·.isContextual) then
            state.addPairs definitions options lookup.location firsts seconds adjustments
              { draft with label := state.labels.identifierOf draft.label, kind := .pairs }
          else
            state.addContextual definitions options lookup (.pairs firsts seconds adjustments)
              contexts { draft with label := state.labels.identifierOf draft.label }) =
              ⟨log, .ok next⟩
            ∧ Entered state drafts log next := by
        split
        · rename_i plain
          exact addPairs_of_translates plain label_eq translated state known
        · rename_i noPairs
          exact contextual (Bool.eq_false_iff.mpr noPairs)
      obtain ⟨log, next, result, entered⟩ := added
      refine ⟨first ++ second ++ log, next, ?_, told.trans entered⟩
      rw [List.append_assoc]
      refine Outcome.bind_eq_ok_iff.mpr ⟨first, (), _, firstReported, ?_, rfl⟩
      exact Outcome.bind_eq_ok_iff.mpr ⟨second, (), log, secondReported, result, rfl⟩
  | singles adjustments => exact contextual rfl
  | attach bases marks => exact contextual rfl
  | cursive exits entries => exact contextual rfl

/-- A definition that has a translation is compiled, whatever has been compiled before. -/
theorem addLookup_of_translates
    {drafts : List CompiledLookup}
    (translated : Translates definitions options lookup drafts)
    (state : Compilation) :
    ∃ log next,
      addLookup definitions options state lookup = ⟨log, .ok next⟩
        ∧ Entered state drafts log next := by
  have identified := entered_identify state lookup.name
  have knows := IdentifierPool.knows_identify state.labels lookup.name
  have label := IdentifierPool.identify_fst state.labels lookup.name
  unfold addLookup
  cases translated with
  | @substitution flags contexts substitution part rules flagged surrounded payload written =>
      have isPlain := Definitions.isPlain_of_mem_flatten written
      obtain ⟨log, next, registered, entered⟩ := entered_register_plain
        { draftOf lookup flags with rules := rules.flatten } isPlain
        { state with labels := (state.labels.identify lookup.name).2 } knows
      have told : Entered { state with labels := (state.labels.identify lookup.name).2 } [] part
          { state with labels := (state.labels.identify lookup.name).2 } :=
        entered_nil _ _ (.refl _) id rfl _
      refine ⟨part ++ log, next, ?_, identified.trans (told.trans entered)⟩
      refine Outcome.liftM_bind_eq_ok_iff.mpr ⟨flags, flagged, ?_⟩
      refine Outcome.liftM_bind_eq_ok_iff.mpr ⟨contexts, surrounded, ?_⟩
      simp only [payload, label]
      exact Outcome.bind_eq_ok_iff.mpr ⟨part, rules, log, written, registered, rfl⟩
  | @positioning flags contexts positioning drafts flagged surrounded payload overlaps
      translated =>
      obtain ⟨log, next, added, entered⟩ := addPositioning_of_translates rfl overlaps translated
        { state with labels := (state.labels.identify lookup.name).2 } knows
      refine ⟨log, next, ?_, identified.trans entered⟩
      refine Outcome.liftM_bind_eq_ok_iff.mpr ⟨flags, flagged, ?_⟩
      refine Outcome.liftM_bind_eq_ok_iff.mpr ⟨contexts, surrounded, ?_⟩
      simp only [payload, label]
      exact added

/-! ## Statements -/

/-- The definitions of lookups among some statements. -/
def lookupsOf (statements : List Statement) : List LookupDefinition :=
  statements.filterMap fun statement =>
    match statement with
    | .lookup lookup => some lookup
    | _ => none

/-- The names of the lookups that a project defines. -/
def lookupNames (statements : List Statement) : List String :=
  (lookupsOf statements).map (·.name)

/-- Every lookup among some statements that have been compiled has a translation. -/
theorem translates_of_addStatements
    {statements : List Statement}
    {state next : Compilation}
    {log : List Notice}
    (added : statements.foldlM (addStatement definitions options) state = ⟨log, .ok next⟩) :
    ∃ translations,
      List.Forall₂ (Translates definitions options) (lookupsOf statements) translations := by
  induction statements generalizing state log with
  | nil => exact ⟨[], .nil⟩
  | cons statement statements ih =>
      rw [List.foldlM_cons] at added
      obtain ⟨_, _, _, step, rest, _⟩ := Outcome.bind_eq_ok_iff.mp added
      obtain ⟨translations, related⟩ := ih rest
      cases statement with
      | lookup lookup =>
          obtain ⟨drafts, translated⟩ := translates_of_addLookup step
          exact ⟨drafts :: translations, .cons translated related⟩
      | _ => exact ⟨translations, related⟩

/-- Statements whose lookups have translations are compiled, whatever has been compiled before. -/
theorem addStatements_of_translates
    {statements : List Statement}
    {translations : List (List CompiledLookup)}
    (related :
      List.Forall₂ (Translates definitions options) (lookupsOf statements) translations)
    (state : Compilation) :
    ∃ log next,
      statements.foldlM (addStatement definitions options) state = ⟨log, .ok next⟩
        ∧ Entered state translations.flatten log next := by
  induction statements generalizing translations state with
  | nil =>
      cases related
      exact ⟨[], state, rfl, entered_nil state state (.refl _) id rfl []⟩
  | cons statement statements ih =>
      cases statement with
      | lookup lookup =>
          cases related with
          | @cons _ drafts _ rest translated related =>
              obtain ⟨log, middle, step, entered⟩ := addLookup_of_translates translated state
              obtain ⟨later, next, steps, more⟩ := ih related middle
              refine ⟨log ++ later, next, ?_, entered.trans more⟩
              exact Outcome.bind_eq_ok_iff.mpr ⟨log, middle, later, step, steps, rfl⟩
      | _ => exact ih related state

/-- Compiling comes to a result if every lookup has a translation. -/
theorem ofStatements_of_translates
    {statements : List Statement}
    {translations : List (List CompiledLookup)}
    (related :
      List.Forall₂ (Translates definitions options) (lookupsOf statements) translations) :
    ∃ log state,
      ofStatements definitions options statements = ⟨log, .ok state⟩
        ∧ Entered {} translations.flatten log state := by
  obtain ⟨log, state, steps, entered⟩ := addStatements_of_translates related {}
  have told : Entered state [] [.lookupsDone state.lookups.size] state :=
    entered_nil state state (.refl _) id rfl _
  have all := entered.trans told
  rw [List.append_nil] at all
  refine ⟨log ++ [.lookupsDone state.lookups.size], state, ?_, all⟩
  exact Outcome.bind_eq_ok_iff.mpr ⟨log, state, _, steps, rfl, rfl⟩

/-- What has been compiled is what the translations of the lookups say. -/
theorem entered_of_ofStatements
    {statements : List Statement}
    {state : Compilation}
    {log : List Notice}
    (compiled : ofStatements definitions options statements = ⟨log, .ok state⟩) :
    ∃ translations,
      List.Forall₂ (Translates definitions options) (lookupsOf statements) translations
        ∧ Entered {} translations.flatten log state := by
  obtain ⟨_, _, _, added, _, _⟩ := Outcome.bind_eq_ok_iff.mp compiled
  obtain ⟨translations, related⟩ := translates_of_addStatements added
  obtain ⟨_, _, again, entered⟩ := ofStatements_of_translates related
  rw [compiled] at again
  cases again
  exact ⟨translations, related, entered⟩

/-- What holds of the lookups for each definition holds of all lookups. -/
theorem forall_mem_flatten_of_related
    {lookups : List LookupDefinition}
    {translations : List (List CompiledLookup)}
    {property : CompiledLookup → Prop}
    (related : List.Forall₂ (Translates definitions options) lookups translations)
    (each : ∀ lookup drafts, Translates definitions options lookup drafts →
      ∀ draft ∈ drafts, property draft) :
    ∀ draft ∈ translations.flatten, property draft := by
  induction related with
  | nil => simp
  | cons translated _ ih =>
      rw [List.flatten_cons, List.forall_mem_append]
      exact ⟨each _ _ translated, ih⟩

/-- All lookups of translations are drafts. -/
theorem isDraft_of_translates
    {lookups : List LookupDefinition}
    {translations : List (List CompiledLookup)}
    (related : List.Forall₂ (Translates definitions options) lookups translations) :
    ∀ draft ∈ translations.flatten, IsDraft draft :=
  forall_mem_flatten_of_related related fun _ _ translated => translated.isDraft

/-- What has been compiled is a draft under the identifiers of the last pool. -/
theorem Entered.exists_draft
    {drafts : List CompiledLookup}
    {state : Compilation}
    {log : List Notice}
    (entered : Entered {} drafts log state)
    {lookup : CompiledLookup}
    (present : lookup ∈ state.lookups.values) :
    ∃ draft ∈ drafts, lookup = draft.relabel state.labels.identifierOf := by
  obtain ⟨entry, member, rfl⟩ := List.mem_map.mp present
  rw [entered.lookups_eq] at member
  rcases mem_entries_enter member with before | ⟨inside, _⟩
  · cases before
  · obtain ⟨draft, present, same⟩ := List.mem_map.mp inside
    exact ⟨draft, present, same.symm⟩

/-! ## Small projects -/

/-- A lookup that does something, in some contexts. -/
def lookupNamed (name : String) (contexts : List Source.ContextDefinition)
    (payload : Source.Payload) : Statement :=
  .lookup {
    name
    processBase := true
    marks := .all
    direction := some .leftToRight
    reversal := false
    comments := none
    contexts
    payload
    location := ⟨1, 1⟩ }

/-- A lookup that moves the first glyph of each pair, everywhere. -/
def kerning (name : String) (pairs : List (String × String)) : Statement :=
  lookupNamed name [] (.positioning (.pairs
    (pairs.map fun pair => [.glyph pair.1])
    (pairs.map fun pair => [.glyph pair.2])
    (pairs.zipIdx.map fun item => {
      first := UInt16.ofNat (item.2 + 1)
      second := UInt16.ofNat (item.2 + 1)
      firstPlacement := { advance := some (-10) }
      secondPlacement := {} })))

/-- A lookup that moves a glyph behind another one only. -/
def spacing (name : String) : Statement :=
  lookupNamed name [⟨.within, [[.glyph "x"]], []⟩]
    (.positioning (.singles [([.glyph "A"], { advance := some 10 })]))

/-- A feature of one language system that uses some lookups. -/
def kernFeature (lookups : List String) : Statement :=
  .script {
    title := none
    tag := ⟨"latn", (isTagName_iff _).mp rfl⟩
    languages := [{
      title := none
      tag := ⟨"dflt", (isTagName_iff _).mp rfl⟩
      features := [⟨none, ⟨"kern", (isTagName_iff _).mp rfl⟩, lookups, ⟨1, 1⟩⟩]
      location := ⟨1, 1⟩ }]
    location := ⟨1, 1⟩ }

/-- A lookup that substitutes a glyph. -/
def swash (name : String) : Statement :=
  lookupNamed name [⟨.within, [], []⟩]
    (.substitution ⟨.single, [⟨[.glyph "a"], [.glyph "b"], ⟨1, 1⟩⟩], ⟨1, 1⟩⟩)

end Compilation
end GlyphLayout
