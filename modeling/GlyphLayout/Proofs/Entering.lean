import GlyphLayout.Proofs.Run

/-!
# Entering translations

From a translation back to a run: whatever the state, the run comes to a result, and enters
the lookups of the translation under the identifiers of its last pool.
-/

namespace GlyphLayout

open Feature (Rule)
open Source (Coverage Location LookupDefinition PairAdjustment Positioning Statement)

namespace Compilation

variable {definitions : Definitions} {options : Options} {lookup : LookupDefinition}
  {positioning : Positioning} {contexts : List RuleContext}

/-- A stretch of a run from one state to another, which enters the given drafts. -/
structure Entered (state : Compilation) (drafts : List CompiledLookup) (log : List Notice)
    (next : Compilation) : Prop where
  /-- Names keep their identifiers. -/
  grows : state.labels.Grows next.labels
  /-- Identifiers stay apart. -/
  distinct : state.labels.Distinct → next.labels.Distinct
  /-- Every name that a draft mentions has an identifier in the end. -/
  known : ∀ draft ∈ drafts, ∀ name ∈ draft.mentions, next.labels.Knows name
  /-- The drafts are entered in order, under these identifiers. -/
  lookups_eq : next.lookups =
    enter state.lookups (drafts.map (CompiledLookup.relabel next.labels.identifierOf))
  /-- A key that comes up again is reported. -/
  fresh : (∀ name, Notice.lookupRedefined name ∉ log) →
    (state.lookups.keys ++ drafts.map CompiledLookup.key).Nodup

/-- Nothing is entered as long as the table stays as it is. -/
theorem entered_nil
    (state next : Compilation)
    (grows : state.labels.Grows next.labels)
    (distinct : state.labels.Distinct → next.labels.Distinct)
    (same : next.lookups = state.lookups)
    (log : List Notice) :
    Entered state [] log next where
  grows := grows
  distinct := distinct
  known := by simp
  lookups_eq := same
  fresh _ := by simpa using state.lookups.keys_nodup

theorem map_relabel_of_grows
    {pool next : IdentifierPool}
    {drafts : List CompiledLookup}
    (grows : pool.Grows next)
    (known : ∀ draft ∈ drafts, ∀ name ∈ draft.mentions, pool.Knows name) :
    drafts.map (CompiledLookup.relabel next.identifierOf) =
      drafts.map (CompiledLookup.relabel pool.identifierOf) :=
  List.map_congr_left fun draft member => CompiledLookup.relabel_congr fun name inside =>
    IdentifierPool.identifierOf_of_grows grows (known draft member name inside)

/-- One stretch after the other. -/
theorem Entered.trans
    {state middle next : Compilation}
    {drafts more : List CompiledLookup}
    {log later : List Notice}
    (first : Entered state drafts log middle)
    (second : Entered middle more later next) :
    Entered state (drafts ++ more) (log ++ later) next where
  grows := first.grows.trans second.grows
  distinct := second.distinct ∘ first.distinct
  known draft member name inside := by
    rcases List.mem_append.mp member with before | after
    · exact (first.known draft before name inside).mono second.grows
    · exact second.known draft after name inside
  lookups_eq := by
    rw [List.map_append, enter_append, map_relabel_of_grows second.grows first.known,
      ← first.lookups_eq]
    exact second.lookups_eq
  fresh silent := by
    have before := first.fresh fun name member => silent name (List.mem_append_left _ member)
    have after := second.fresh fun name member => silent name (List.mem_append_right _ member)
    have keys : middle.lookups.keys =
        state.lookups.keys ++ drafts.map CompiledLookup.key := by
      rw [first.lookups_eq, OrderedMap.keys,
        entries_enter (by simpa [Function.comp_def] using before)]
      simp [OrderedMap.keys, Function.comp_def]
    rw [keys] at after
    simpa using after

theorem register_eq (state : Compilation) (lookup : CompiledLookup) :
    state.register lookup =
      ⟨if state.lookups.contains lookup.key then [.lookupRedefined lookup.sourceName] else [],
        .ok { state with lookups := state.lookups.insert lookup.key lookup }⟩ := by
  rw [register, Outcome.tellIf_eq_ok]
  exact congrArg (fun log => Outcome.mk log _) (List.append_nil _)

/-- Entering one draft whose names all have identifiers. -/
theorem entered_register
    (state : Compilation)
    {draft : CompiledLookup}
    (known : ∀ name ∈ draft.mentions, state.labels.Knows name) :
    ∃ log next,
      state.register (draft.relabel state.labels.identifierOf) = ⟨log, .ok next⟩
        ∧ next.labels = state.labels ∧ Entered state [draft] log next := by
  refine ⟨_, _, register_eq _ _, rfl, ?_⟩
  constructor
  · exact IdentifierPool.Grows.refl _
  · exact id
  · simpa using known
  · rfl
  · intro silent
    have new : draft.key ∉ state.lookups.keys := by
      intro present
      apply silent draft.sourceName
      rw [CompiledLookup.key_relabel,
        if_pos ((OrderedMap.contains_iff_mem_keys _ _).mpr present)]
      exact List.mem_singleton_self _
    rw [List.map_singleton, List.nodup_append]
    refine ⟨state.lookups.keys_nodup, by simp, ?_⟩
    intro key present other own same
    rw [List.mem_singleton] at own
    exact new (own ▸ same ▸ present)

theorem entered_identify (state : Compilation) (name : String) :
    Entered state [] [] { state with labels := (state.labels.identify name).2 } :=
  entered_nil state { state with labels := (state.labels.identify name).2 }
    (IdentifierPool.grows_identify _ _) (fun distinct => distinct.identify name) rfl []

theorem entered_useMarks (state : Compilation) (members : List MarkMember) :
    Entered state [] [] (state.useMarks members) :=
  entered_nil state (state.useMarks members) (IdentifierPool.Grows.refl _) id rfl []

/-- A construct is skipped unless the options are strict. -/
theorem entered_skipConstruct
    (state : Compilation)
    (construct : Construct)
    (location : Location)
    (permissive : options.strict = false) :
    ∃ log next, state.skipConstruct options construct location = ⟨log, .ok next⟩
      ∧ Entered state [] log next := by
  unfold skipConstruct
  rw [if_neg (by simp [permissive])]
  split
  · exact ⟨_, state, rfl, entered_nil state state (IdentifierPool.Grows.refl _) id rfl _⟩
  · refine ⟨_, _, rfl, entered_nil _ _ ?_ ?_ ?_ _⟩
    · exact IdentifierPool.Grows.refl _
    · exact id
    · rfl

/-! ## Pieces and helpers -/

/-- The first piece has the label of the whole, and every other one gets a label of its own. -/
theorem entered_pieceLabel
    {whole : CompiledLookup}
    (label_eq : whole.label = whole.sourceName)
    (state : Compilation)
    (known : state.labels.Knows whole.label)
    (index : Nat) :
    ∃ labels : IdentifierPool,
      (if index = 0 then (state.labels.identifierOf whole.label, state.labels)
        else state.labels.identify (LookupId.pieceName whole.sourceName index)) =
          (labels.identifierOf (LookupId.pieceName whole.sourceName index), labels)
        ∧ Entered state [] [] { state with labels }
        ∧ labels.Knows (LookupId.pieceName whole.sourceName index) := by
  split
  · rename_i first
    have name : LookupId.pieceName whole.sourceName index = whole.label := by
      rw [LookupId.pieceName, if_pos first, label_eq]
    rw [name]
    exact ⟨state.labels, rfl,
      entered_nil state state (IdentifierPool.Grows.refl _) id rfl [], known⟩
  · refine ⟨(state.labels.identify _).2, ?_, entered_identify state _,
      IdentifierPool.knows_identify _ _⟩
    rw [← IdentifierPool.identify_fst]

theorem relabel_pieceDraft
    {rules : List Rule}
    (plain : ∀ rule ∈ rules, rule.IsPlain)
    (rename : String → String)
    (whole : CompiledLookup)
    (index : Nat) :
    (pieceDraft whole index rules).relabel rename =
      { pieceDraft whole index rules with
        label := rename (LookupId.pieceName whole.sourceName index) } := by
  simp only [CompiledLookup.relabel, pieceDraft, Rule.map_relabel_of_isPlain plain]

theorem mentions_of_isPlain
    {draft : CompiledLookup}
    (plain : ∀ rule ∈ draft.rules, rule.IsPlain) :
    draft.mentions = [draft.label] := by
  have none : draft.rules.flatMap Rule.references = [] :=
    List.flatMap_eq_nil_iff.mpr fun rule member => (plain rule member).2
  rw [CompiledLookup.mentions, none]

theorem entered_addPieces
    (whole : CompiledLookup)
    {pieces : List (List Rule)}
    (label_eq : whole.label = whole.sourceName)
    (plain : ∀ rules ∈ pieces, ∀ rule ∈ rules, rule.IsPlain)
    (state : Compilation)
    (known : state.labels.Knows whole.label)
    (index : Nat) :
    ∃ log next,
      addPieces { whole with label := state.labels.identifierOf whole.label } state index pieces =
          ⟨log, .ok next⟩
        ∧ Entered state (pieceDrafts whole index pieces) log next := by
  induction pieces generalizing state index with
  | nil =>
      exact ⟨[], state, rfl, entered_nil state state (IdentifierPool.Grows.refl _) id rfl []⟩
  | cons rules rest ih =>
      obtain ⟨labels, choice, identified, knows⟩ :=
        entered_pieceLabel label_eq state known index
      have here := plain rules (List.mem_cons_self ..)
      have mentions : ∀ name ∈ (pieceDraft whole index rules).mentions, labels.Knows name := by
        rw [mentions_of_isPlain here]
        exact List.forall_mem_singleton.mpr knows
      obtain ⟨log, next, registered, _, entered⟩ :=
        entered_register { state with labels } mentions
      rw [relabel_pieceDraft here] at registered
      have start := identified.trans entered
      obtain ⟨later, last, rest_eq, restEntered⟩ := ih
        (fun rules member => plain rules (List.mem_cons_of_mem _ member)) next
        (known.mono start.grows) (index + 1)
      rw [IdentifierPool.identifierOf_of_grows start.grows known] at rest_eq
      refine ⟨log ++ later, last, ?_, start.trans restEntered⟩
      unfold addPieces
      simp only [choice]
      exact Outcome.bind_eq_ok_iff.mpr ⟨log, next, later, registered, rest_eq, rfl⟩

/-- A helper enters the plain rules of its lookup and gives its own label. -/
theorem entered_addHelper
    {plain : PlainRules}
    {location : Location}
    (resolved : definitions.plainRules location positioning = .ok plain)
    (state : Compilation)
    (parent : CompiledLookup) :
    ∃ log next,
      state.addHelper definitions location positioning parent =
          ⟨log, .ok (next, next.labels.identifierOf (helperName parent.sourceName))⟩
        ∧ Entered state [helperDraft parent plain.rules] log next
        ∧ next.labels.Knows (helperName parent.sourceName) := by
  have rules := Definitions.isPlain_of_plainRules resolved
  let labels := (state.labels.identify (helperName parent.sourceName)).2
  let notice := Notice.helperAdded parent.sourceName
    (state.labels.identify (helperName parent.sourceName)).1
  have identified : Entered state [] [notice] { state.useMarks plain.marks with labels } :=
    entered_nil state { state.useMarks plain.marks with labels }
      (IdentifierPool.grows_identify _ _) (fun distinct => distinct.identify _) rfl [notice]
  have mentions : ∀ name ∈ (helperDraft parent plain.rules).mentions, labels.Knows name := by
    rw [mentions_of_isPlain rules]
    exact List.forall_mem_singleton.mpr (IdentifierPool.knows_identify _ _)
  obtain ⟨log, next, registered, same, entered⟩ :=
    entered_register { state.useMarks plain.marks with labels } mentions
  have knows : next.labels.Knows (helperName parent.sourceName) :=
    same ▸ IdentifierPool.knows_identify _ _
  refine ⟨[notice] ++ log, next, ?_, identified.trans entered, knows⟩
  have relabelled : (helperDraft parent plain.rules).relabel labels.identifierOf =
      { helperDraft parent plain.rules with
        label := (state.labels.identify (helperName parent.sourceName)).1 } := by
    rw [IdentifierPool.identify_fst]
    simp only [CompiledLookup.relabel, helperDraft, Rule.map_relabel_of_isPlain rules]
    rfl
  have label : next.labels.identifierOf (helperName parent.sourceName) =
      (state.labels.identify (helperName parent.sourceName)).1 := by
    rw [IdentifierPool.identify_fst, same]
  rw [relabelled] at registered
  unfold addHelper
  refine Outcome.bind_eq_ok_iff.mpr ⟨[notice], (), log, rfl, ?_, rfl⟩
  refine Outcome.liftM_bind_eq_ok_iff.mpr ⟨plain, resolved, ?_⟩
  refine Outcome.bind_eq_ok_iff.mpr
    ⟨log, next, [], registered, ?_, (List.append_nil log).symm⟩
  rw [label]
  rfl

end Compilation
end GlyphLayout
