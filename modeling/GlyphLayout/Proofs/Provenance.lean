import GlyphLayout.Proofs.Naming

/-!
# Where rules come from

Every rule of a block is a comment, a subtable break, or comes from a lookup that some
definition of the project is translated to: it sets the flags of that lookup or is one of its
rules, with its references replaced by labels.
-/

namespace GlyphLayout

open Feature (Document Rule)
open Source (LookupDefinition Statement)

namespace Compilation

variable {definitions : Definitions} {options : Options}

/-- Each draft among all comes from the translation of one lookup. -/
theorem exists_of_mem_flatten_of_related
    {lookups : List LookupDefinition}
    {translations : List (List CompiledLookup)}
    {draft : CompiledLookup}
    (related : List.Forall₂ (Translates definitions options) lookups translations)
    (member : draft ∈ translations.flatten) :
    ∃ lookup ∈ lookups, ∃ drafts, Translates definitions options lookup drafts
      ∧ draft ∈ drafts := by
  obtain ⟨drafts, listed, inside⟩ := List.mem_flatten.mp member
  obtain ⟨lookup, defined, translated⟩ := exists_of_mem_right related listed
  exact ⟨lookup, defined, drafts, translated, inside⟩

/-- A block of its own adds comments and flags to the rules of a lookup. -/
theorem mem_rules_block
    {lookup : CompiledLookup}
    {rule : Rule}
    (member : rule ∈ lookup.block.rules) :
    (∃ text, rule = .comment text) ∨ rule = .flags lookup.flags ∨ rule ∈ lookup.rules := by
  simp only [CompiledLookup.block, CompiledLookup.commentRules, CompiledLookup.flagRules,
    List.mem_append, List.mem_map] at member
  rcases member with (⟨text, _, rfl⟩ | flags) | own
  · exact .inl ⟨text, rfl⟩
  · split at flags
    · cases flags
    · exact .inr (.inl (List.mem_singleton.mp flags))
  · exact .inr (.inr own)

theorem mem_pieceRules
    {piece : CompiledLookup}
    {rule : Rule}
    (member : rule ∈ pieceRules piece) :
    (∃ text, rule = .comment text) ∨ rule ∈ piece.rules := by
  rcases List.mem_cons.mp member with rfl | member
  · exact .inl ⟨_, rfl⟩
  · rcases List.mem_append.mp member with comment | own
    · obtain ⟨text, _, rfl⟩ := List.mem_map.mp comment
      exact .inl ⟨text, rfl⟩
    · exact .inr own

/-- A rule of a block belongs to one of the lookups of its group, unless it acts on nothing. -/
theorem mem_rules_blockFor
    {identify : String → String}
    {group : List CompiledLookup}
    {rule : Rule}
    (member : rule ∈ (blockFor identify group).rules) :
    (∃ text, rule = .comment text) ∨ rule = .subtable
      ∨ ∃ lookup ∈ group, rule = .flags lookup.flags ∨ rule ∈ lookup.rules := by
  match group with
  | [] => cases member
  | [lookup] =>
      rcases mem_rules_block member with comment | own
      · exact .inl comment
      · exact .inr (.inr ⟨lookup, List.mem_singleton_self _, own⟩)
  | first :: second :: others =>
      rcases List.mem_append.mp member with front | rest
      · rcases List.mem_append.mp front with flags | own
        · rw [CompiledLookup.flagRules] at flags
          split at flags
          · cases flags
          · exact .inr (.inr ⟨first, List.mem_cons_self .., .inl (List.mem_singleton.mp flags)⟩)
        · rcases mem_pieceRules own with comment | own
          · exact .inl comment
          · exact .inr (.inr ⟨first, List.mem_cons_self .., .inr own⟩)
      · obtain ⟨piece, present, inside⟩ := List.mem_flatMap.mp rest
        rcases List.mem_cons.mp inside with rfl | own
        · exact .inr (.inl rfl)
        · rcases mem_pieceRules own with comment | own
          · exact .inl comment
          · exact .inr (.inr ⟨piece, List.mem_cons_of_mem _ present, .inr own⟩)

/-- The rule is in a block because a definition of the project is translated to it. -/
inductive Stems (definitions : Definitions) (options : Options) (statements : List Statement) :
    Rule → Prop
  | comment (text : String) : Stems definitions options statements (.comment text)
  | subtable : Stems definitions options statements .subtable
  | flags
      {lookup : LookupDefinition} {drafts : List CompiledLookup} {draft : CompiledLookup}
      (defined : lookup ∈ lookupsOf statements)
      (translated : Translates definitions options lookup drafts)
      (present : draft ∈ drafts) :
      Stems definitions options statements (.flags draft.flags)
  | rule
      {lookup : LookupDefinition} {drafts : List CompiledLookup} {draft : CompiledLookup}
      {rule : Rule}
      (defined : lookup ∈ lookupsOf statements)
      (translated : Translates definitions options lookup drafts)
      (present : draft ∈ drafts)
      (member : rule ∈ draft.rules)
      (rename : String → String) :
      Stems definitions options statements (rule.relabel rename)

/-- The block holds some lookups that definitions of the project are translated to. -/
def Gathers (definitions : Definitions) (options : Options) (statements : List Statement)
    (block : Feature.Lookup) : Prop :=
  ∃ (pool : IdentifierPool) (group : List CompiledLookup),
    block = blockFor pool.identifierOf group ∧ group ≠ []
    ∧ ∀ compiled ∈ group, ∃ lookup ∈ lookupsOf statements, ∃ drafts,
        Translates definitions options lookup drafts
          ∧ ∃ draft ∈ drafts, ∃ rename, compiled = draft.relabel rename

theorem gathers_of_mem_blocks
    {statements : List Statement}
    {state : Compilation}
    {merged : MergedLookups}
    {compiling merging : List Notice}
    (compiled : ofStatements definitions options statements = ⟨compiling, .ok state⟩)
    (mergedOk : state.merge = ⟨merging, .ok merged⟩) :
    ∀ block ∈ merged.blocks, Gathers definitions options statements block := by
  obtain ⟨translations, related, entered⟩ := entered_of_ofStatements compiled
  obtain ⟨_, _, pool, again, facts⟩ := merged_of_keysOwn (keysOwn_of_entered entered)
  rw [mergedOk] at again
  cases again
  rw [facts.blocks_eq]
  intro block listed
  obtain ⟨group, inside, rfl⟩ := List.mem_map.mp listed
  refine ⟨pool, group, rfl, ne_nil_of_mem_groups inside, fun lookup held => ?_⟩
  obtain ⟨draft, entry, same⟩ := entered.exists_draft (mem_of_mem_groups inside held)
  obtain ⟨definition, defined, drafts, translated, present⟩ :=
    exists_of_mem_flatten_of_related related entry
  exact ⟨definition, defined, drafts, translated, draft, present, _, same⟩

/-- A rule of a block that gathers translations stems from one of them, or is added to them. -/
theorem Gathers.stems
    {statements : List Statement}
    {block : Feature.Lookup}
    {rule : Rule}
    (gathers : Gathers definitions options statements block)
    (member : rule ∈ block.rules) :
    Stems definitions options statements rule := by
  obtain ⟨_, _, rfl, _, each⟩ := gathers
  rcases mem_rules_blockFor member with ⟨text, rfl⟩ | rfl | ⟨lookup, held, own⟩
  · exact .comment text
  · exact .subtable
  · obtain ⟨definition, defined, drafts, translated, draft, present, rename, rfl⟩ :=
      each lookup held
    rcases own with rfl | own
    · change Stems definitions options statements (.flags draft.flags)
      exact .flags defined translated present
    · obtain ⟨source, written, rfl⟩ := List.mem_map.mp own
      exact .rule defined translated present written rename

end Compilation

/-- The classes of a converted project, and where its blocks come from. -/
theorem sources_of_convert
    {statements : List Statement}
    {glyphOrder : Option GlyphOrder}
    {options : Options}
    {log : List Notice}
    {document : Document}
    (converted : convert statements glyphOrder options = ⟨log, .ok document⟩) :
    ∃ collecting definitions compiling state,
      Definitions.collect statements glyphOrder = ⟨collecting, .ok definitions⟩
        ∧ Compilation.ofStatements definitions options statements = ⟨compiling, .ok state⟩
        ∧ document.glyphClasses = definitions.glyphClassBlocks
        ∧ document.markClasses = definitions.markClassBlocks state
        ∧ ∀ block ∈ document.lookups,
            Compilation.Gathers definitions options statements block := by
  obtain ⟨collecting, definitions, _, collected, rest, _⟩ := Outcome.bind_eq_ok_iff.mp converted
  obtain ⟨compiling, state, _, compiled, rest, _⟩ := Outcome.bind_eq_ok_iff.mp rest
  obtain ⟨_, merged, _, mergedOk, rest, _⟩ := Outcome.bind_eq_ok_iff.mp rest
  obtain ⟨_, _, _, _, same, _⟩ := Outcome.bind_eq_ok_iff.mp rest
  cases same
  exact ⟨collecting, definitions, compiling, state, collected, compiled, rfl, rfl,
    Compilation.gathers_of_mem_blocks compiled mergedOk⟩

end GlyphLayout
