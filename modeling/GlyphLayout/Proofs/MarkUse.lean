import GlyphLayout.Proofs.Compiling
import GlyphLayout.Proofs.SortedTable

/-!
# Marks in use

Compiling notes which marks some rule attaches, as a side effect of writing plain rules: into
a lookup where a context needs no contextual rules, or into its helper, once, where a context
applies it.  After all lookups have been compiled, the marks in use are those of the coverages
that the attaching lookups list.
-/

namespace GlyphLayout

open Feature (Rule)
open Source (Coverage Location LookupDefinition Positioning Statement)

/-! ## What is attached -/

/-- Plain rules of a lookup are written for the context, unless the lookup cannot have one. -/
def RuleContext.admitsPlain (lookup : LookupDefinition) (context : RuleContext) : Bool :=
  !context.isContextual || (!lookup.reversal && !context.ignored)

/--
The lookup attaches the mark: it lists a coverage of the glyph under the class, and it has a
context for which plain rules are written.
-/
def Definitions.Attaches (definitions : Definitions) (lookup : LookupDefinition)
    (member : MarkMember) : Prop :=
  ∃ bases marks contexts, lookup.payload = .positioning (.attach bases marks)
    ∧ definitions.ruleContexts lookup = .ok contexts
    ∧ (∃ context ∈ contexts, context.admitsPlain lookup)
    ∧ ∃ coverage glyphs, (coverage, member.markClass) ∈ marks
        ∧ definitions.expand lookup.location coverage = .ok glyphs ∧ member.glyph ∈ glyphs

namespace Compilation

variable {definitions : Definitions} {options : Options} {lookup : LookupDefinition}
  {positioning : Positioning} {contexts : List RuleContext} {member : MarkMember}

/-- The mark is among those that the plain rules of a positioning attach. -/
def PlainMark (definitions : Definitions) (location : Location) (positioning : Positioning)
    (member : MarkMember) : Prop :=
  ∃ plain, definitions.plainRules location positioning = .ok plain ∧ member ∈ plain.marks

theorem plainMark_iff_of_plainRules
    {location : Location}
    {plain : PlainRules}
    (resolved : definitions.plainRules location positioning = .ok plain) :
    PlainMark definitions location positioning member ↔ member ∈ plain.marks := by
  simp [PlainMark, resolved]

/-- Plain rules are written for the context, into the lookup or into its helper. -/
def writesPlain (lookup : LookupDefinition) (positioning : Positioning) (context : RuleContext) :
    Bool :=
  !context.isContextual || appliesHelper lookup positioning context

/-- Compiling the lookup notes that it attaches the mark. -/
def Notes (definitions : Definitions) (lookup : LookupDefinition) (member : MarkMember) : Prop :=
  ∃ positioning contexts, lookup.payload = .positioning positioning
    ∧ definitions.ruleContexts lookup = .ok contexts
    ∧ contexts.any (writesPlain lookup positioning)
    ∧ PlainMark definitions lookup.location positioning member

/-- The members for a coverage are its glyphs, each of which is a mark of the class. -/
theorem of_membersOf
    {location : Location}
    {coverage : Coverage}
    {markClass : String}
    {members : List MarkMember}
    (found : definitions.membersOf location (coverage, markClass) = .ok members) :
    ∃ glyphs, definitions.expand location coverage = .ok glyphs
      ∧ members = glyphs.map (⟨·, markClass⟩)
      ∧ ∀ member ∈ members, definitions.hasMarkAnchor member := by
  obtain ⟨glyphs, expanded, walked⟩ := except_bind_eq_ok_iff.mp found
  have step (glyph : String) (value : MarkMember)
      (checked : (if definitions.hasMarkAnchor ⟨glyph, markClass⟩
        then (.ok ⟨glyph, markClass⟩ : Except ConversionError MarkMember)
        else .error (.undefinedMarkAnchor glyph markClass location)) = .ok value) :
      value = ⟨glyph, markClass⟩ ∧ definitions.hasMarkAnchor value := by
    split at checked
    · rename_i anchored
      cases checked
      exact ⟨rfl, anchored⟩
    · cases checked
  exact ⟨glyphs, expanded,
    eq_map_of_except_mapM walked fun glyph value checked => (step glyph value checked).1,
    forall_of_except_mapM walked fun glyph value checked => (step glyph value checked).2⟩

/-- An attachment attaches the glyphs of the coverages that it lists. -/
theorem plainMark_attach_iff
    {location : Location}
    {bases : Coverage}
    {marks : List (Coverage × String)}
    {plain : PlainRules}
    (resolved : definitions.plainRules location (.attach bases marks) = .ok plain) :
    PlainMark definitions location (.attach bases marks) member ↔
      ∃ coverage glyphs, (coverage, member.markClass) ∈ marks
        ∧ definitions.expand location coverage = .ok glyphs ∧ member.glyph ∈ glyphs := by
  obtain ⟨_, attached, result⟩ := except_bind_eq_ok_iff.mp resolved
  obtain ⟨rules, _, result⟩ := except_bind_eq_ok_iff.mp result
  obtain ⟨parts, traversed, flattened⟩ := except_bind_eq_ok_iff.mp attached
  cases flattened
  cases result
  constructor
  · rintro ⟨_, again, member⟩
    rw [resolved] at again
    cases again
    obtain ⟨part, present, inside⟩ := List.mem_flatten.mp member
    obtain ⟨⟨coverage, markClass⟩, listed, found⟩ := exists_of_mem_except_mapM traversed present
    obtain ⟨glyphs, expanded, rfl, _⟩ := of_membersOf found
    obtain ⟨glyph, held, rfl⟩ := List.mem_map.mp inside
    exact ⟨coverage, glyphs, listed, expanded, held⟩
  · rintro ⟨coverage, glyphs, listed, expanded, held⟩
    obtain ⟨part, present, found⟩ :=
      exists_of_mem_left (except_mapM_eq_ok_iff.mp traversed) listed
    obtain ⟨_, same, rfl, _⟩ := of_membersOf found
    rw [expanded] at same
    cases same
    refine ⟨_, resolved, List.mem_flatten.mpr ⟨_, present, ?_⟩⟩
    exact List.mem_map.mpr ⟨member.glyph, held, rfl⟩

/-- What plain rules attach has an anchor for its class. -/
theorem hasMarkAnchor_of_plainMark
    {location : Location}
    {bases : Coverage}
    {marks : List (Coverage × String)}
    (plain : PlainMark definitions location (.attach bases marks) member) :
    definitions.hasMarkAnchor member := by
  obtain ⟨_, resolved, inside⟩ := plain
  obtain ⟨_, attached, result⟩ := except_bind_eq_ok_iff.mp resolved
  obtain ⟨_, _, result⟩ := except_bind_eq_ok_iff.mp result
  obtain ⟨parts, traversed, flattened⟩ := except_bind_eq_ok_iff.mp attached
  cases flattened
  cases result
  obtain ⟨part, present, inside⟩ := List.mem_flatten.mp inside
  obtain ⟨⟨coverage, markClass⟩, _, found⟩ := exists_of_mem_except_mapM traversed present
  obtain ⟨_, _, _, anchored⟩ := of_membersOf found
  exact anchored member inside

/-- Only attachments attach marks. -/
theorem exists_attach_of_plainMark
    {location : Location}
    (plain : PlainMark definitions location positioning member) :
    ∃ bases marks, positioning = .attach bases marks := by
  obtain ⟨plain, resolved, inside⟩ := plain
  cases positioning with
  | attach bases marks => exact ⟨bases, marks, rfl⟩
  | pairs firsts seconds adjustments =>
      obtain ⟨_, _, result⟩ := except_bind_eq_ok_iff.mp resolved
      cases result
      cases inside
  | singles adjustments =>
      obtain ⟨_, _, result⟩ := except_bind_eq_ok_iff.mp resolved
      cases result
      cases inside
  | cursive exits entries =>
      obtain ⟨_, _, result⟩ := except_bind_eq_ok_iff.mp resolved
      cases result
      cases inside

/-! ## Steps of a run -/

theorem uses_of_register
    {state next : Compilation}
    {compiled : CompiledLookup}
    {log : List Notice}
    (registered : state.register compiled = ⟨log, .ok next⟩) :
    next.uses member ↔ state.uses member := by
  rw [register_eq] at registered
  cases registered
  rfl

theorem uses_of_skipConstruct
    {state next : Compilation}
    {construct : Construct}
    {location : Location}
    {log : List Notice}
    (skipped : state.skipConstruct options construct location = ⟨log, .ok next⟩) :
    next.uses member ↔ state.uses member := by
  unfold skipConstruct at skipped
  split at skipped
  · cases skipped
  · split at skipped
    · cases skipped
      rfl
    · obtain ⟨_, _, _, _, result, _⟩ := Outcome.bind_eq_ok_iff.mp skipped
      cases result
      rfl

theorem uses_of_addPieces
    {draft : CompiledLookup}
    {state next : Compilation}
    {index : Nat}
    {pieces : List (List Rule)}
    {log : List Notice}
    (added : addPieces draft state index pieces = ⟨log, .ok next⟩) :
    next.uses member ↔ state.uses member := by
  induction pieces generalizing state index log with
  | nil =>
      cases added
      rfl
  | cons rules rest ih =>
      unfold addPieces at added
      obtain ⟨_, middle, _, registered, rest, _⟩ := Outcome.bind_eq_ok_iff.mp added
      -- The pool of labels has changed before the piece is registered, the marks have not.
      exact (ih rest).trans ((uses_of_register registered).trans Iff.rfl)

theorem uses_of_addPairs
    {state next : Compilation}
    {location : Location}
    {firsts seconds : List Coverage}
    {pairs : List Source.PairAdjustment}
    {draft : CompiledLookup}
    {log : List Notice}
    (added : state.addPairs definitions options location firsts seconds pairs draft =
      ⟨log, .ok next⟩) :
    next.uses member ↔ state.uses member := by
  obtain ⟨_, _, added⟩ := Outcome.liftM_bind_eq_ok_iff.mp added
  dsimp only at added
  split at added
  · exact uses_of_register added
  · split at added
    · exact uses_of_register added
    · obtain ⟨_, _, added⟩ := Outcome.liftM_bind_eq_ok_iff.mp added
      split at added
      · exact uses_of_register added
      · obtain ⟨_, _, _, _, added, _⟩ := Outcome.bind_eq_ok_iff.mp added
        exact uses_of_addPieces added

/-- A helper brings the marks of its plain rules into use. -/
theorem uses_of_addHelper
    {state : Compilation}
    {parent : CompiledLookup}
    {result : Compilation × String}
    {log : List Notice}
    (added : state.addHelper definitions lookup.location positioning parent =
      ⟨log, .ok result⟩) :
    result.1.uses member ↔
      PlainMark definitions lookup.location positioning member ∨ state.uses member := by
  obtain ⟨_, _, _, _, added, _⟩ := Outcome.bind_eq_ok_iff.mp added
  obtain ⟨plain, resolved, added⟩ := Outcome.liftM_bind_eq_ok_iff.mp added
  obtain ⟨_, _, _, registered, same, _⟩ := Outcome.bind_eq_ok_iff.mp added
  cases same
  rw [plainMark_iff_of_plainRules resolved, uses_of_register registered]
  exact uses_useMarks

/-- A lookup that has its helper uses the marks of its plain rules already. -/
def HelperNoted (definitions : Definitions) (lookup : LookupDefinition)
    (positioning : Positioning) (progress : Progress) : Prop :=
  progress.helper.isSome →
    ∀ member, PlainMark definitions lookup.location positioning member →
      progress.state.uses member

/-- Once its helper has been found, a lookup uses the marks of its plain rules. -/
theorem uses_of_helperFor
    {parent : CompiledLookup}
    {progress : Progress}
    {result : Compilation × String}
    {log : List Notice}
    (noted : HelperNoted definitions lookup positioning progress)
    (found : helperFor progress definitions lookup.location positioning parent =
      ⟨log, .ok result⟩) :
    result.1.uses member ↔
      PlainMark definitions lookup.location positioning member ∨ progress.state.uses member := by
  unfold helperFor at found
  cases there : progress.helper with
  | some label =>
      simp only [there] at found
      cases found
      have known := noted (by simp [there]) member
      exact ⟨.inr, fun either => either.elim known id⟩
  | none =>
      simp only [there] at found
      exact uses_of_addHelper found

/-- One context brings the marks of the plain rules into use if these are written for it. -/
theorem uses_of_writeContext
    {parent : CompiledLookup}
    {progress next : Progress}
    {context : RuleContext}
    {log : List Notice}
    (noted : HelperNoted definitions lookup positioning progress)
    (written : writeContext definitions options lookup positioning parent progress context =
      ⟨log, .ok next⟩) :
    (∀ member, next.state.uses member ↔
        (writesPlain lookup positioning context
          ∧ PlainMark definitions lookup.location positioning member)
        ∨ progress.state.uses member)
      ∧ HelperNoted definitions lookup positioning next := by
  cases contextStep_of_writeContext written with
  | plain everywhere resolved =>
      refine ⟨fun member => ?_, fun some member plain => ?_⟩
      · simp [uses_useMarks, plainMark_iff_of_plainRules resolved, writesPlain, everywhere]
      · exact uses_useMarks.mpr (.inr (noted some member plain))
  | skipped contextual obstacle skipped =>
      refine ⟨fun member => ?_, fun some member plain => ?_⟩
      · rw [uses_of_skipConstruct skipped]
        simp [writesPlain, appliesHelper, contextual, obstacle]
      · exact (uses_of_skipConstruct skipped).mpr (noted some member plain)
  | ignored contextual free except resolved =>
      refine ⟨fun member => ?_, noted⟩
      simp [writesPlain, appliesHelper, contextual, except]
  | chained contextual free within helped resolved =>
      refine ⟨fun member => ?_, fun _ member plain => ?_⟩
      · have writes : writesPlain lookup positioning context := by
          simp [writesPlain, appliesHelper, contextual, free, within]
        simpa [writes] using uses_of_helperFor noted helped
      · exact (uses_of_helperFor noted helped).mpr (.inl plain)

/-- All contexts of a lookup. -/
theorem uses_of_writeContexts
    {parent : CompiledLookup}
    {progress last : Progress}
    {log : List Notice}
    (noted : HelperNoted definitions lookup positioning progress)
    (written : contexts.foldlM (writeContext definitions options lookup positioning parent)
      progress = ⟨log, .ok last⟩) :
    last.state.uses member ↔
      (contexts.any (writesPlain lookup positioning)
        ∧ PlainMark definitions lookup.location positioning member)
      ∨ progress.state.uses member := by
  induction contexts generalizing progress log with
  | nil =>
      cases written
      simp
  | cons context contexts ih =>
      rw [List.foldlM_cons] at written
      obtain ⟨_, next, _, step, rest, _⟩ := Outcome.bind_eq_ok_iff.mp written
      obtain ⟨here, helped⟩ := uses_of_writeContext noted step
      rw [ih helped rest, here, List.any_cons, Bool.or_eq_true, or_and_right, ← or_assoc]
      exact or_congr_left or_comm

theorem uses_of_addContextual
    {state next : Compilation}
    {parent : CompiledLookup}
    {log : List Notice}
    (added : state.addContextual definitions options lookup positioning contexts parent =
      ⟨log, .ok next⟩) :
    next.uses member ↔
      (contexts.any (writesPlain lookup positioning)
        ∧ PlainMark definitions lookup.location positioning member)
      ∨ state.uses member := by
  obtain ⟨_, last, _, written, registered, _⟩ := Outcome.bind_eq_ok_iff.mp added
  rw [uses_of_register registered]
  exact uses_of_writeContexts (fun some => by cases some) written

theorem uses_of_addPositioning
    {state next : Compilation}
    {draft : CompiledLookup}
    {log : List Notice}
    (added : state.addPositioning definitions options lookup positioning contexts draft =
      ⟨log, .ok next⟩) :
    next.uses member ↔
      (contexts.any (writesPlain lookup positioning)
        ∧ PlainMark definitions lookup.location positioning member)
      ∨ state.uses member := by
  cases positioning with
  | pairs firsts seconds adjustments =>
      obtain ⟨_, _, _, _, added, _⟩ := Outcome.bind_eq_ok_iff.mp added
      obtain ⟨_, _, _, _, added, _⟩ := Outcome.bind_eq_ok_iff.mp added
      split at added
      · have none : ¬ PlainMark definitions lookup.location
            (.pairs firsts seconds adjustments) member := fun plain => by
          obtain ⟨_, _, shape⟩ := exists_attach_of_plainMark plain
          cases shape
        simp [uses_of_addPairs added, none]
      · exact uses_of_addContextual added
  | singles adjustments => exact uses_of_addContextual added
  | attach bases marks => exact uses_of_addContextual added
  | cursive exits entries => exact uses_of_addContextual added

/-- One lookup brings into use what it is noted to attach. -/
theorem uses_of_addLookup
    {state next : Compilation}
    {log : List Notice}
    (added : addLookup definitions options state lookup = ⟨log, .ok next⟩) :
    next.uses member ↔ Notes definitions lookup member ∨ state.uses member := by
  obtain ⟨flags, flagged, added⟩ := Outcome.liftM_bind_eq_ok_iff.mp added
  obtain ⟨contexts, surrounded, added⟩ := Outcome.liftM_bind_eq_ok_iff.mp added
  cases payload : lookup.payload with
  | substitution substitution =>
      simp only [payload] at added
      obtain ⟨_, _, _, _, registered, _⟩ := Outcome.bind_eq_ok_iff.mp added
      have none : ¬ Notes definitions lookup member := by
        rintro ⟨_, _, same, _⟩
        rw [payload] at same
        cases same
      rw [uses_of_register registered]
      simp only [none, false_or]
      rfl
  | positioning positioning =>
      simp only [payload] at added
      have notes : Notes definitions lookup member ↔
          contexts.any (writesPlain lookup positioning)
            ∧ PlainMark definitions lookup.location positioning member := by
        constructor
        · rintro ⟨_, _, same, again, writes, plain⟩
          rw [payload] at same
          rw [surrounded] at again
          cases same
          cases again
          exact ⟨writes, plain⟩
        · rintro ⟨writes, plain⟩
          exact ⟨positioning, contexts, payload, surrounded, writes, plain⟩
      rw [uses_of_addPositioning added, notes]
      rfl

/-! ## A whole run -/

theorem uses_of_addStatements
    {statements : List Statement}
    {state next : Compilation}
    {log : List Notice}
    (added : statements.foldlM (addStatement definitions options) state = ⟨log, .ok next⟩) :
    next.uses member ↔
      (∃ lookup ∈ lookupsOf statements, Notes definitions lookup member)
        ∨ state.uses member := by
  induction statements generalizing state log with
  | nil =>
      cases added
      simp [lookupsOf]
  | cons statement statements ih =>
      rw [List.foldlM_cons] at added
      obtain ⟨_, middle, _, step, rest, _⟩ := Outcome.bind_eq_ok_iff.mp added
      rw [ih rest]
      cases statement with
      | lookup lookup =>
          have here : lookupsOf (.lookup lookup :: statements) =
              lookup :: lookupsOf statements := rfl
          rw [uses_of_addLookup step, here, List.exists_mem_cons_iff, or_assoc]
          exact or_left_comm
      | _ =>
          cases step
          exact Iff.rfl

/-- The plain rules of a translated lookup exist if they are written for one of its contexts. -/
theorem exists_plainRules_of_translates
    {drafts : List CompiledLookup}
    (translated : Translates definitions options lookup drafts)
    {bases : Coverage}
    {marks : List (Coverage × String)}
    (payload : lookup.payload = .positioning (.attach bases marks))
    (surrounded : definitions.ruleContexts lookup = .ok contexts)
    (writes : contexts.any (writesPlain lookup (.attach bases marks))) :
    ∃ plain, definitions.plainRules lookup.location (.attach bases marks) = .ok plain := by
  cases translated with
  | substitution _ _ other => simp [payload] at other
  | positioning _ again same _ translated =>
      rw [surrounded] at again
      rw [payload] at same
      cases again
      cases same
      cases translated with
      | whole shape => cases shape
      | cut shape => cases shape
      | @contextual plain rules _ helped _ written =>
          obtain ⟨context, listed, writes⟩ := List.any_eq_true.mp writes
          rcases Bool.or_eq_true_iff.mp writes with everywhere | applies
          · obtain ⟨part, _, here⟩ :=
              exists_of_mem_left (except_mapM_eq_ok_iff.mp written) listed
            rw [contextRules, if_pos everywhere] at here
            obtain ⟨plain, resolved, _⟩ := except_bind_eq_ok_iff.mp here
            exact ⟨plain, resolved⟩
          · exact ⟨plain, helped (List.any_eq_true.mpr ⟨context, listed, applies⟩)⟩

/-- Only a reversal keeps an attachment from having contextual rules. -/
theorem writesPlain_attach
    {bases : Coverage}
    {marks : List (Coverage × String)}
    (context : RuleContext) :
    writesPlain lookup (.attach bases marks) context = context.admitsPlain lookup := by
  unfold writesPlain appliesHelper obstacle? RuleContext.admitsPlain
  cases context.isContextual <;> cases lookup.reversal <;> rfl

/-- A lookup that has been compiled notes that it attaches a mark exactly if it does. -/
theorem notes_iff_attaches
    {drafts : List CompiledLookup}
    (translated : Translates definitions options lookup drafts) :
    Notes definitions lookup member ↔ definitions.Attaches lookup member := by
  constructor
  · rintro ⟨positioning, contexts, payload, surrounded, writes, plain⟩
    obtain ⟨bases, marks, rfl⟩ := exists_attach_of_plainMark plain
    obtain ⟨context, listed, writes⟩ := List.any_eq_true.mp writes
    have ⟨_, resolved, _⟩ := plain
    exact ⟨bases, marks, contexts, payload, surrounded,
      ⟨context, listed, writesPlain_attach context ▸ writes⟩,
      (plainMark_attach_iff resolved).mp plain⟩
  · rintro ⟨bases, marks, contexts, payload, surrounded, ⟨context, listed, admits⟩, mark⟩
    have writes : contexts.any (writesPlain lookup (.attach bases marks)) :=
      List.any_eq_true.mpr ⟨context, listed, (writesPlain_attach context).trans admits⟩
    obtain ⟨_, resolved⟩ :=
      exists_plainRules_of_translates translated payload surrounded writes
    exact ⟨_, contexts, payload, surrounded, writes, (plainMark_attach_iff resolved).mpr mark⟩

/-- The marks in use after a run are those that the lookups of the project attach. -/
theorem uses_iff_of_ofStatements
    {statements : List Statement}
    {state : Compilation}
    {log : List Notice}
    (compiled : ofStatements definitions options statements = ⟨log, .ok state⟩) :
    state.uses member ↔ ∃ lookup ∈ lookupsOf statements, definitions.Attaches lookup member := by
  obtain ⟨translations, related, _⟩ := entered_of_ofStatements compiled
  obtain ⟨_, _, _, added, rest, _⟩ := Outcome.bind_eq_ok_iff.mp compiled
  obtain ⟨_, _, _, _, result, _⟩ := Outcome.bind_eq_ok_iff.mp rest
  cases result
  have unused : ({} : Compilation).uses member = false := rfl
  rw [uses_of_addStatements added]
  simp only [unused, Bool.false_eq_true, or_false]
  refine exists_congr fun lookup => and_congr_right fun listed => ?_
  obtain ⟨drafts, _, translated⟩ := exists_of_mem_left related listed
  exact notes_iff_attaches translated

/-- A mark in use has an anchor for its class. -/
theorem hasMarkAnchor_of_uses
    {statements : List Statement}
    {state : Compilation}
    {log : List Notice}
    (compiled : ofStatements definitions options statements = ⟨log, .ok state⟩)
    (used : state.uses member) :
    definitions.hasMarkAnchor member := by
  obtain ⟨_, _, _, added, rest, _⟩ := Outcome.bind_eq_ok_iff.mp compiled
  obtain ⟨_, _, _, _, result, _⟩ := Outcome.bind_eq_ok_iff.mp rest
  cases result
  rcases (uses_of_addStatements added).mp used with ⟨_, _, notes⟩ | before
  · obtain ⟨_, _, _, _, _, plain⟩ := notes
    obtain ⟨_, _, rfl⟩ := exists_attach_of_plainMark plain
    exact hasMarkAnchor_of_plainMark plain
  · cases before

end Compilation
end GlyphLayout
