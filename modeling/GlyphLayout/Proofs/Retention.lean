import GlyphLayout.Proofs.Conservation
import GlyphLayout.Proofs.Keys
import GlyphLayout.Proofs.Naming
import Mathlib.Algebra.GroupWithZero.Nat

/-!
# Lookups that are kept

A definition adds lookups under its own name and under generated ones.  As long as the
definitions have different names, the only way to lose a lookup is that a generated name is
the name of a definition; then one lookup takes the place of the other.
-/

namespace GlyphLayout

open Feature (Document)
open Source (LookupDefinition Statement)

namespace Compilation

variable {definitions : Definitions} {options : Options} {state : Compilation}

/-- The lookups that a definition alone is compiled to, with labels from the given pool. -/
def compiledAlone (definitions : Definitions) (options : Options) (labels : IdentifierPool)
    (lookup : LookupDefinition) : Outcome (List CompiledLookup) := do
  let next ← addLookup definitions options { labels } lookup
  return next.lookups.values

/-- The lookups of each definition of a project, with the labels that they have in the whole. -/
def compiledEach (definitions : Definitions) (options : Options) (statements : List Statement) :
    Outcome (List (List CompiledLookup)) := do
  let state ← ofStatements definitions options statements
  (lookupsOf statements).mapM (compiledAlone definitions options state.labels)

/-- The blocks hold the rules of each lookup in one place, and nothing else. -/
def HeldOnce (blocks : List Feature.Lookup) (lookups : List CompiledLookup) : Prop :=
  ∃ groups, groups.flatten.Perm lookups
    ∧ List.Forall₂ (fun block group => Holds block.rules group) blocks groups

/-! ## What the blocks hold -/

/-- A block holds one lookup more than it has subtable breaks. -/
theorem Holds.length_eq
    {rules : List Feature.Rule}
    {group : List CompiledLookup}
    (holds : Holds rules group) :
    group.length = rules.count .subtable + 1 := by
  have none {some : List Feature.Rule} (noBreak : .subtable ∉ some) :
      some.count .subtable = 0 := List.count_eq_zero_of_not_mem noBreak
  have noHeading {heading : List Feature.Rule} (silent : ∀ rule ∈ heading, isHeading rule) :
      .subtable ∉ heading := fun inside => by cases silent _ inside
  have noRule {lookup : CompiledLookup} (acts : ∀ rule ∈ lookup.rules, rule.actsOnGlyphs) :
      .subtable ∉ lookup.rules := fun inside => by cases acts _ inside
  induction holds with
  | last silent acts =>
      rw [List.count_append, none (noHeading silent), none (noRule acts)]
      rfl
  | cons silent acts _ ih =>
      rw [List.count_append, List.count_append, none (noHeading silent), none (noRule acts),
        List.count_cons_self, List.length_cons, ih]
      omega

/-- Blocks can only hold so many lookups. -/
theorem HeldOnce.length_eq
    {blocks : List Feature.Lookup}
    {lookups : List CompiledLookup}
    (held : HeldOnce blocks lookups) :
    lookups.length = (blocks.map fun block => block.rules.count .subtable + 1).sum := by
  obtain ⟨groups, perm, holds⟩ := held
  rw [← perm.length_eq]
  clear perm
  induction holds with
  | nil => rfl
  | cons head _ ih =>
      rw [List.flatten_cons, List.length_append, ih, head.length_eq, List.map_cons, List.sum_cons]

/-- Whatever labels are in use, a definition alone is compiled to its translation. -/
theorem exists_compiledAlone_of_translates
    {lookup : LookupDefinition}
    {drafts : List CompiledLookup}
    (translated : Translates definitions options lookup drafts)
    (labels : IdentifierPool) :
    ∃ log pool, labels.Grows pool
      ∧ compiledAlone definitions options labels lookup =
          ⟨log, .ok (drafts.map (CompiledLookup.relabel pool.identifierOf))⟩ := by
  obtain ⟨log, next, added, entered⟩ := addLookup_of_translates translated { labels }
  have nodup := nodup_keys_of_namedAfter translated.namedAfter
  have values : next.lookups.values =
      drafts.map (CompiledLookup.relabel next.labels.identifierOf) := by
    rw [entered.lookups_eq]
    exact values_enter_of_nodup (by simpa [Function.comp_def] using nodup)
  refine ⟨log, next.labels, entered.grows, ?_⟩
  rw [← values]
  exact Outcome.bind_eq_ok_iff.mpr ⟨log, next, [], added, rfl, (List.append_nil log).symm⟩

/-- The labels are those that are in use if there is one for each name. -/
theorem compiledAlone_of_translates
    {lookup : LookupDefinition}
    {drafts : List CompiledLookup}
    {labels : IdentifierPool}
    (translated : Translates definitions options lookup drafts)
    (known : ∀ draft ∈ drafts, ∀ name ∈ draft.mentions, labels.Knows name) :
    ∃ log, compiledAlone definitions options labels lookup =
      ⟨log, .ok (drafts.map (CompiledLookup.relabel labels.identifierOf))⟩ := by
  obtain ⟨log, pool, grows, compiled⟩ := exists_compiledAlone_of_translates translated labels
  rw [map_relabel_of_grows grows known] at compiled
  exact ⟨log, compiled⟩

theorem compiledAlone_of_related
    {lookups : List LookupDefinition}
    {translations : List (List CompiledLookup)}
    {labels : IdentifierPool}
    (related : List.Forall₂ (Translates definitions options) lookups translations)
    (known : ∀ draft ∈ translations.flatten, ∀ name ∈ draft.mentions, labels.Knows name) :
    ∃ log, lookups.mapM (compiledAlone definitions options labels) =
      ⟨log, .ok (translations.map
        (List.map (CompiledLookup.relabel labels.identifierOf)))⟩ := by
  induction related with
  | nil => exact ⟨[], rfl⟩
  | cons translated _ ih =>
      rw [List.flatten_cons, List.forall_mem_append] at known
      obtain ⟨log, head⟩ := compiledAlone_of_translates translated known.1
      obtain ⟨later, tail⟩ := ih known.2
      refine ⟨log ++ later, ?_⟩
      rw [List.mapM_cons]
      refine Outcome.bind_eq_ok_iff.mpr ⟨log, _, later, head, ?_, rfl⟩
      exact Outcome.bind_eq_ok_iff.mpr ⟨later, _, [], tail, rfl, (List.append_nil later).symm⟩

theorem allNamedAfter_of_related
    {statements : List Statement}
    {translations : List (List CompiledLookup)}
    (related : List.Forall₂ (Translates definitions options) (lookupsOf statements) translations)
    (rename : String → String) :
    AllNamedAfter (lookupNames statements)
      (translations.map (List.map (CompiledLookup.relabel rename))) := by
  rw [AllNamedAfter, lookupNames, List.forall₂_map_left_iff, List.forall₂_map_right_iff]
  apply related.imp
  intro lookup drafts translated
  rw [List.map_map]
  exact translated.namedAfter

/-- The blocks hold what has been entered exactly if no key has come up twice. -/
theorem heldOnce_iff
    {merged : MergedLookups}
    {groups : List (List CompiledLookup)}
    {added : List CompiledLookup}
    (conserves : Conserves state merged groups)
    (lookups_eq : state.lookups = enter ∅ added) :
    HeldOnce merged.blocks added ↔ (added.map CompiledLookup.key).Nodup := by
  have all : HeldOnce merged.blocks state.lookups.values :=
    ⟨groups, conserves.partition, conserves.holds⟩
  constructor
  · intro held
    rw [← length_entries_enter_empty, ← lookups_eq, held.length_eq, ← all.length_eq,
      OrderedMap.values, List.length_map]
  · intro nodup
    rw [lookups_eq, values_enter_of_nodup nodup] at all
    exact all

end Compilation

open Compilation

/--
The lookups of a project whose definitions have different names are all kept, each exactly
once, if and only if no generated name is the name of a definition.
-/
theorem convert_heldOnce_iff
    {statements : List Statement}
    {glyphOrder : Option GlyphOrder}
    {options : Options}
    {log : List Notice}
    {document : Document}
    (converted : convert statements glyphOrder options = ⟨log, .ok document⟩)
    (differ : ((lookupNames statements).map Text.lowercase).Nodup) :
    ∃ definitions compiled,
      (Definitions.collect statements glyphOrder).result = .ok definitions
        ∧ (compiledEach definitions options statements).result = .ok compiled
        ∧ (HeldOnce document.lookups compiled.flatten ↔
            NoNameTaken (lookupNames statements) compiled) := by
  obtain ⟨_, definitions, _, state, _, merged, _, collected, compiled, mergedOk, _,
    lookups_eq, _⟩ := of_convert converted
  obtain ⟨translations, related, entered⟩ := entered_of_ofStatements compiled
  have own := keysOwn_of_entered entered
  obtain ⟨_, again, pool, same, facts⟩ := merged_of_keysOwn own
  rw [mergedOk] at same
  cases same
  obtain ⟨_, each⟩ := compiledAlone_of_related related entered.known
  refine ⟨definitions, _, by rw [collected],
    congrArg Outcome.result (Outcome.bind_eq_ok_iff.mpr ⟨_, state, _, compiled, each, rfl⟩), ?_⟩
  rw [← nodup_keys_iff (allNamedAfter_of_related related _) differ, lookups_eq]
  apply heldOnce_iff (facts.conserves own (rulesAct_of_entered related entered))
  rw [entered.lookups_eq, List.map_flatten]

/-- A log without a report of a lookup that has been defined before. -/
def isSilent (log : List Notice) : Bool :=
  log.all fun notice =>
    match notice with
    | .lookupRedefined _ => false
    | _ => true

theorem not_mem_of_isSilent
    {log : List Notice}
    (silent : isSilent log)
    (name : String) :
    .lookupRedefined name ∉ log := by
  intro member
  have told := List.all_eq_true.mp silent _ member
  cases told

/-- A lookup that needs a helper, and one that is cut into two pieces. -/
def helperAndSplit : List Statement :=
  [spacing "space", kerning "kern" [("A", "V"), ("T", "V")]]

theorem convert_heldOnce_iff_helperAndSplit :
    ∃ log document, convert helperAndSplit none { pairLimit := some 1 } = ⟨log, .ok document⟩
      ∧ ∃ definitions compiled,
          (Definitions.collect helperAndSplit none).result = .ok definitions
            ∧ (compiledEach definitions { pairLimit := some 1 } helperAndSplit).result =
                .ok compiled
            ∧ HeldOnce document.lookups compiled.flatten := by
  obtain ⟨log, document, converted⟩ : ∃ log document,
      convert helperAndSplit none { pairLimit := some 1 } = ⟨log, .ok document⟩ :=
    Outcome.exists_of_isOk (by decide +kernel)
  obtain ⟨definitions, compiled, collected, each, iff⟩ :=
    convert_heldOnce_iff converted (by decide +kernel)
  refine ⟨log, document, converted, definitions, compiled, collected, each, iff.mpr ?_⟩
  have generated : ((Definitions.collect helperAndSplit none).result.toOption.bind
      fun definitions => (compiledEach definitions { pairLimit := some 1 }
        helperAndSplit).result.toOption.map fun compiled =>
          (List.zipWith generatedKeys (lookupNames helperAndSplit) compiled).flatten) =
        some ["space target", "kern\\2"] := by
    decide +kernel
  simp only [collected, each, Except.toOption, Option.bind_some, Option.map_some,
    Option.some.injEq] at generated
  rw [NoNameTaken, generated]
  decide +kernel

/-- A contextual lookup whose helper is named like another lookup. -/
def namedLikeHelper : List Statement :=
  [swash "kern target", spacing "kern"]

/-- A helper may take the place of a lookup that has its name. -/
theorem exists_not_heldOnce :
    ¬ ∀ (statements : List Statement) (glyphOrder : Option GlyphOrder) (options : Options)
      (log : List Notice) (document : Document) (definitions : Definitions)
      (compiled : List (List CompiledLookup)),
      convert statements glyphOrder options = ⟨log, .ok document⟩ →
      ((lookupNames statements).map Text.lowercase).Nodup →
      (Definitions.collect statements glyphOrder).result = .ok definitions →
      (compiledEach definitions options statements).result = .ok compiled →
        HeldOnce document.lookups compiled.flatten := by
  intro always
  obtain ⟨log, document, converted⟩ : ∃ log document,
      convert namedLikeHelper none {} = ⟨log, .ok document⟩ :=
    Outcome.exists_of_isOk (by decide +kernel)
  have blocks : ((convert namedLikeHelper none {}).result.toOption.map fun document =>
      (document.lookups.map fun block => block.rules.count .subtable + 1).sum) = some 2 := by
    decide +kernel
  have compiled : ((Definitions.collect namedLikeHelper none).result.toOption.bind
      fun definitions => (compiledEach definitions {} namedLikeHelper).result.toOption.map
        fun compiled => compiled.flatten.length) = some 3 := by
    decide +kernel
  obtain ⟨definitions, collected, compiled⟩ := Option.bind_eq_some_iff.mp compiled
  obtain ⟨each, compiledOk, three⟩ := Option.map_eq_some_iff.mp compiled
  have held := always namedLikeHelper none {} log document definitions each converted
    (by decide +kernel) (except_eq_ok_of_toOption collected) (except_eq_ok_of_toOption compiledOk)
  simp only [converted, Except.toOption, Option.map_some, Option.some.injEq] at blocks
  have lengths := held.length_eq
  rw [three, blocks] at lengths
  cases lengths

end GlyphLayout
