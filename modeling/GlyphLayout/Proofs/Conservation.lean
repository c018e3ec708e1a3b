import GlyphLayout.Proofs.Merging

/-!
# Merging conserves lookups

The blocks of a feature file hold the rules of every compiled lookup exactly once and in one
piece.  Several lookups share a block only if they are pieces of one pair positioning lookup;
then subtable breaks keep them apart.
-/

namespace GlyphLayout

open Feature (Rule)
open Source (Statement)

namespace Compilation

variable {definitions : Definitions} {options : Options} {state : Compilation}
  {pool : IdentifierPool}

/-- The rule belongs to a heading: it is a comment or a statement of flags. -/
def isHeading : Rule → Bool
  | .comment _ | .flags _ => true
  | _ => false

/--
The rules of a block hold the rules of some lookups, each behind a heading of its own, with a
subtable break between neighbours and nowhere else.
-/
inductive Holds : List Rule → List CompiledLookup → Prop
  | last
      {heading : List Rule} {lookup : CompiledLookup}
      (silent : ∀ rule ∈ heading, isHeading rule)
      (acts : ∀ rule ∈ lookup.rules, rule.actsOnGlyphs) :
      Holds (heading ++ lookup.rules) [lookup]
  | cons
      {heading rules : List Rule} {lookup : CompiledLookup} {others : List CompiledLookup}
      (silent : ∀ rule ∈ heading, isHeading rule)
      (acts : ∀ rule ∈ lookup.rules, rule.actsOnGlyphs)
      (rest : Holds rules others) :
      Holds (heading ++ lookup.rules ++ .subtable :: rules) (lookup :: others)

/-- What is conserved when lookups are merged into blocks, where each block holds a group. -/
structure Conserves (state : Compilation) (merged : MergedLookups)
    (groups : List (List CompiledLookup)) : Prop where
  /-- Every lookup is in exactly one group, and no group has anything else. -/
  partition : groups.flatten.Perm state.lookups.values
  /-- Each block holds the lookups of its group. -/
  holds : List.Forall₂ (fun block group => Holds block.rules group) merged.blocks groups
  /-- A base is shared by pieces that position pairs and have it in lower case as their own. -/
  shared : ∀ base, state.piecesOf base = state.lookups.entries.filter fun entry =>
    entry.2.id.isPiece ∧ entry.2.kind = .pairs ∧ Text.lowercase entry.2.id.base = base
  /-- Several lookups are together only if they are all the pieces that share a base. -/
  together : ∀ group ∈ groups, 2 ≤ group.length →
    ∃ base, group = (state.piecesOf base).map Prod.snd
  /-- All pieces that share a base are together. -/
  gathered : ∀ base, state.piecesOf base ≠ [] → (state.piecesOf base).map Prod.snd ∈ groups
  /-- Each key has an entry among the labels. -/
  keys_eq : merged.labels.keys = state.lookups.keys
  /-- A lookup has no label exactly if it is a piece and another piece comes first. -/
  hidden : ∀ key, merged.labels.get? key = some none ↔
    ∃ base, key ∈ ((state.piecesOf base).drop 1).map Prod.fst
  /-- The label of a lookup names the block that holds it. -/
  named : ∀ key lookup label, state.lookups.get? key = some lookup →
    merged.labels.get? key = some (some label) →
      ∃ block group, (block, group) ∈ merged.blocks.zip groups ∧ block.name = label
        ∧ lookup ∈ group
  /-- A block with a subtable break holds several pieces, and rules for pairs only. -/
  broken : ∀ block group, (block, group) ∈ merged.blocks.zip groups →
    .subtable ∈ block.rules →
      2 ≤ group.length ∧ ∀ rule ∈ block.rules, rule.actsOnGlyphs → rule.isPair
  /-- A piece that does not position pairs keeps a block of its own. -/
  stray : ∀ lookup ∈ state.lookups.values, lookup.id.isPiece → lookup.kind ≠ .pairs →
    [lookup] ∈ groups

/-! ## Blocks and the lookups that they hold -/

theorem Holds.heading
    {heading rules : List Rule}
    {group : List CompiledLookup}
    (silent : ∀ rule ∈ heading, isHeading rule)
    (holds : Holds rules group) :
    Holds (heading ++ rules) group := by
  cases holds with
  | last before acts =>
      rw [← List.append_assoc]
      exact .last (List.forall_mem_append.mpr ⟨silent, before⟩) acts
  | cons before acts rest =>
      rw [← List.append_assoc, ← List.append_assoc]
      exact .cons (List.forall_mem_append.mpr ⟨silent, before⟩) acts rest

theorem isHeading_of_mem_commentRules
    {lookup : CompiledLookup}
    {rule : Rule}
    (member : rule ∈ lookup.commentRules) :
    isHeading rule := by
  obtain ⟨comment, _, rfl⟩ := List.mem_map.mp member
  rfl

theorem isHeading_of_mem_flagRules
    {lookup : CompiledLookup}
    {rule : Rule}
    (member : rule ∈ lookup.flagRules) :
    isHeading rule := by
  unfold CompiledLookup.flagRules at member
  split at member
  · cases member
  · rw [List.mem_singleton.mp member]
    rfl

/-- What is between the name of a piece and its rules is a heading. -/
theorem silent_pieceRules (piece : CompiledLookup) :
    ∀ rule ∈ Rule.comment piece.sourceName :: piece.commentRules, isHeading rule :=
  List.forall_mem_cons.mpr ⟨rfl, fun _ => isHeading_of_mem_commentRules⟩

theorem holds_pieces
    {first : CompiledLookup}
    {others : List CompiledLookup}
    (acts : ∀ lookup ∈ first :: others, ∀ rule ∈ lookup.rules, rule.actsOnGlyphs) :
    Holds (pieceRules first ++ others.flatMap fun piece => .subtable :: pieceRules piece)
      (first :: others) := by
  have own := acts first (List.mem_cons_self ..)
  induction others generalizing first with
  | nil =>
      rw [List.flatMap_nil, List.append_nil]
      exact .last (silent_pieceRules first) own
  | cons second others ih =>
      have later := fun lookup member => acts lookup (List.mem_cons_of_mem first member)
      exact .cons (silent_pieceRules first) own
        (ih later (later second (List.mem_cons_self ..)))

/-- The block for a group holds its lookups. -/
theorem holds_blockFor
    {group : List CompiledLookup}
    (some : group ≠ [])
    (acts : ∀ lookup ∈ group, ∀ rule ∈ lookup.rules, rule.actsOnGlyphs) :
    Holds (blockFor pool.identifierOf group).rules group := by
  match group with
  | [] => exact (some rfl).elim
  | [lookup] =>
      refine .last (List.forall_mem_append.mpr ⟨?_, ?_⟩) (acts lookup (List.mem_singleton_self _))
      · exact fun _ => isHeading_of_mem_commentRules
      · exact fun _ => isHeading_of_mem_flagRules
  | first :: second :: others =>
      have all := (holds_pieces acts).heading fun rule (member : rule ∈ first.flagRules) =>
        isHeading_of_mem_flagRules member
      rw [← List.append_assoc] at all
      exact all

/-- A block has a subtable break only between several lookups. -/
theorem Holds.two_le_length
    {rules : List Rule}
    {group : List CompiledLookup}
    (holds : Holds rules group)
    (broken : .subtable ∈ rules) :
    2 ≤ group.length := by
  cases holds with
  | last silent acts =>
      rcases List.mem_append.mp broken with inside | inside
      · cases silent _ inside
      · cases acts _ inside
  | cons silent acts rest =>
      cases rest <;> simp

/-- A rule of a block that acts on glyphs is a rule of a lookup that the block holds. -/
theorem Holds.mem_rules
    {rules : List Rule}
    {group : List CompiledLookup}
    {rule : Rule}
    (holds : Holds rules group)
    (member : rule ∈ rules)
    (acts : rule.actsOnGlyphs) :
    ∃ lookup ∈ group, rule ∈ lookup.rules := by
  have noHeading {heading : List Rule} (silent : ∀ rule ∈ heading, isHeading rule)
      (inside : rule ∈ heading) : False := by
    have heads := silent rule inside
    cases rule <;> simp_all [isHeading, Rule.actsOnGlyphs]
  induction holds with
  | @last heading lookup silent =>
      rcases List.mem_append.mp member with inside | inside
      · exact (noHeading silent inside).elim
      · exact ⟨lookup, List.mem_singleton_self _, inside⟩
  | @cons heading rules lookup others silent _ _ ih =>
      rcases List.mem_append.mp member with inside | after
      · rcases List.mem_append.mp inside with inside | inside
        · exact (noHeading silent inside).elim
        · exact ⟨lookup, List.mem_cons_self .., inside⟩
      · rcases List.mem_cons.mp after with rfl | after
        · cases acts
        · obtain ⟨other, present, inside⟩ := ih after
          exact ⟨other, List.mem_cons_of_mem _ present, inside⟩

/-! ## Labels -/

theorem piecesOf_eq (own : KeysOwn state.lookups) (base : String) :
    state.piecesOf base =
      (piecesAmong state.lookups.values base).map fun lookup => (lookup.key, lookup) := by
  rw [piecesOf, entries_eq_of_keysOwn own, List.filter_map]
  rfl

theorem mem_drop_one_iff {α : Type} {items : List α} {item : α} (nodup : items.Nodup) :
    item ∈ items.drop 1 ↔ item ∈ items ∧ items.head? ≠ some item := by
  cases items with
  | nil => simp
  | cons first rest =>
      rw [List.nodup_cons] at nodup
      rw [List.drop_one, List.tail_cons, List.head?_cons, List.mem_cons, Ne, Option.some.injEq]
      constructor
      · exact fun inside => ⟨.inr inside, fun same => nodup.1 (same ▸ inside)⟩
      · rintro ⟨same | inside, different⟩
        · exact (different same.symm).elim
        · exact inside

/-- The label under a key is the one of the lookup with that key. -/
theorem Merged.get?_labels
    {merged : MergedLookups}
    (facts : Merged state pool merged)
    {key : String}
    {label : Option String} :
    merged.labels.get? key = some label ↔
      ∃ lookup ∈ state.lookups.values, lookup.key = key
        ∧ labelAt pool state.lookups.values lookup = label := by
  rw [OrderedMap.get?_eq_some_iff, facts.entries_eq, List.mem_map]
  simp only [Prod.mk.injEq]

theorem groupAt?_eq_none_iff
    {lookups : List CompiledLookup}
    {lookup : CompiledLookup}
    (nodup : lookups.Nodup)
    (present : lookup ∈ lookups) :
    groupAt? lookups lookup = none ↔ ∃ base, lookup ∈ (piecesAmong lookups base).drop 1 := by
  constructor
  · intro none
    unfold groupAt? at none
    split at none
    · cases none
    · rename_i name piece
      split at none
      · cases none
      · rename_i later
        refine ⟨name, (mem_drop_one_iff (nodup.filter _)).mpr ⟨?_, later⟩⟩
        exact mem_piecesAmong.mpr ⟨present, piece⟩
  · rintro ⟨base, inside⟩
    obtain ⟨member, later⟩ := (mem_drop_one_iff (nodup.filter _)).mp inside
    have piece := (mem_piecesAmong.mp member).2
    simp only [groupAt?, piece]
    exact if_neg later

/-! ## The result of merging -/

/-- What is known of every compiled lookup. -/
def RulesAct (lookup : CompiledLookup) : Prop :=
  (∀ rule ∈ lookup.rules, rule.actsOnGlyphs)
    ∧ (lookup.kind = .pairs → ∀ rule ∈ lookup.rules, rule.isPair)

theorem rulesAct_of_isDraft
    {draft : CompiledLookup}
    (isDraft : IsDraft draft)
    (rename : String → String) :
    RulesAct (draft.relabel rename) := by
  constructor
  · simpa using isDraft.acts
  · simpa using isDraft.isPair

theorem two_le_length_piecesAmong
    {group : List CompiledLookup}
    (member : group ∈ groups state.lookups.values)
    (several : 2 ≤ group.length) :
    ∃ base, group = piecesAmong state.lookups.values base := by
  obtain ⟨lookup, _, found⟩ := List.mem_filterMap.mp member
  rcases eq_of_groupAt? found with ⟨_, rfl⟩ | ⟨base, _, same, _⟩
  · simp at several
  · exact ⟨base, same⟩

theorem holds_of_mem_groups
    {group : List CompiledLookup}
    (act : ∀ lookup ∈ state.lookups.values, RulesAct lookup)
    (member : group ∈ groups state.lookups.values) :
    Holds (blockFor pool.identifierOf group).rules group :=
  holds_blockFor (ne_nil_of_mem_groups member) fun lookup inside =>
    (act lookup (mem_of_mem_groups member inside)).1

/-- A block for several lookups positions pairs. -/
theorem isPair_of_two_le_length
    {group : List CompiledLookup}
    (act : ∀ lookup ∈ state.lookups.values, RulesAct lookup)
    (member : group ∈ groups state.lookups.values)
    (several : 2 ≤ group.length) :
    ∀ rule ∈ (blockFor pool.identifierOf group).rules, rule.actsOnGlyphs → rule.isPair := by
  intro rule inside acts
  obtain ⟨lookup, present, within⟩ := (holds_of_mem_groups act member).mem_rules inside acts
  obtain ⟨base, rfl⟩ := two_le_length_piecesAmong member several
  obtain ⟨inTable, piece⟩ := mem_piecesAmong.mp present
  exact (act lookup inTable).2 (pieceGroup?_eq_some_iff.mp piece).2.1 rule within

theorem Merged.mem_zip_iff
    {merged : MergedLookups}
    (facts : Merged state pool merged)
    {block : Feature.Lookup}
    {group : List CompiledLookup} :
    (block, group) ∈ merged.blocks.zip (groups state.lookups.values) ↔
      group ∈ groups state.lookups.values ∧ block = blockFor pool.identifierOf group := by
  rw [facts.blocks_eq]
  induction groups state.lookups.values with
  | nil => simp
  | cons first rest ih =>
      simp only [List.map_cons, List.zip_cons_cons, List.mem_cons, Prod.mk.injEq, ih]
      constructor
      · rintro (⟨rfl, rfl⟩ | ⟨inside, same⟩)
        · exact ⟨.inl rfl, rfl⟩
        · exact ⟨.inr inside, same⟩
      · rintro ⟨rfl | inside, rfl⟩
        · exact .inl ⟨rfl, rfl⟩
        · exact .inr ⟨inside, rfl⟩

/-- All pieces that share a base are in one group. -/
theorem map_snd_piecesOf_mem_groups
    {base : String}
    (some : state.piecesOf base ≠ []) :
    (state.piecesOf base).map Prod.snd ∈ groups state.lookups.values := by
  rw [map_snd_piecesOf]
  have some : piecesAmong state.lookups.values base ≠ [] := by
    rw [← map_snd_piecesOf]
    simpa using some
  obtain ⟨first, rest, shape⟩ := List.exists_cons_of_ne_nil some
  obtain ⟨present, piece⟩ := mem_piecesAmong.mp (shape ▸ List.mem_cons_self ..)
  refine List.mem_filterMap.mpr ⟨first, present, ?_⟩
  simp [groupAt?, piece, shape]

theorem singleton_mem_groups
    {lookups : List CompiledLookup}
    {lookup : CompiledLookup}
    (present : lookup ∈ lookups)
    (noPairs : lookup.kind ≠ .pairs) :
    [lookup] ∈ groups lookups := by
  refine List.mem_filterMap.mpr ⟨lookup, present, ?_⟩
  have alone : pieceGroup? lookup = none := by simp [pieceGroup?, noPairs]
  simp [groupAt?, alone]

/-- The lookups without labels are the later pieces of each base. -/
theorem Merged.get?_labels_eq_none_iff
    {merged : MergedLookups}
    (own : KeysOwn state.lookups)
    (facts : Merged state pool merged)
    {key : String} :
    merged.labels.get? key = some none ↔
      ∃ base, key ∈ ((state.piecesOf base).drop 1).map Prod.fst := by
  have nodup : state.lookups.values.Nodup := (nodup_keys_of_keysOwn own).of_map _
  rw [facts.get?_labels]
  constructor
  · rintro ⟨lookup, present, rfl, none⟩
    rw [labelAt, Option.map_eq_none_iff, groupAt?_eq_none_iff nodup present] at none
    obtain ⟨base, inside⟩ := none
    refine ⟨base, ?_⟩
    rw [piecesOf_eq own, ← List.map_drop, List.map_map]
    exact List.mem_map_of_mem inside
  · rintro ⟨base, member⟩
    rw [piecesOf_eq own, ← List.map_drop, List.map_map] at member
    obtain ⟨lookup, inside, rfl⟩ := List.mem_map.mp member
    have present := (mem_piecesAmong.mp (List.mem_of_mem_drop inside)).1
    refine ⟨lookup, present, rfl, ?_⟩
    rw [labelAt, (groupAt?_eq_none_iff nodup present).mpr ⟨base, inside⟩]
    rfl

/-- A label is the name of the block for a group with the lookup. -/
theorem Merged.exists_block_of_label
    {merged : MergedLookups}
    (own : KeysOwn state.lookups)
    (facts : Merged state pool merged)
    {key label : String}
    {lookup : CompiledLookup}
    (found : state.lookups.get? key = some lookup)
    (labelled : merged.labels.get? key = some (some label)) :
    ∃ block group, (block, group) ∈ merged.blocks.zip (groups state.lookups.values)
      ∧ block.name = label ∧ lookup ∈ group := by
  obtain ⟨other, present, rfl, label_eq⟩ := facts.get?_labels.mp labelled
  have entry := OrderedMap.get?_eq_some_iff.mp found
  have same : lookup = other :=
    eq_of_key_eq own (List.mem_map_of_mem entry) present (own _ entry).symm
  subst same
  obtain ⟨group, place, rfl⟩ := Option.map_eq_some_iff.mp label_eq
  refine ⟨_, group, facts.mem_zip_iff.mpr ⟨?_, rfl⟩, rfl, ?_⟩
  · exact List.mem_filterMap.mpr ⟨lookup, present, place⟩
  · exact List.mem_of_mem_head? (head?_of_groupAt? place)

theorem Merged.conserves
    {merged : MergedLookups}
    (own : KeysOwn state.lookups)
    (act : ∀ lookup ∈ state.lookups.values, RulesAct lookup)
    (facts : Merged state pool merged) :
    Conserves state merged (groups state.lookups.values) := by
  constructor
  case partition => exact flatten_groups_perm ((nodup_keys_of_keysOwn own).of_map _)
  case holds =>
    rw [facts.blocks_eq, List.forall₂_map_left_iff, List.forall₂_same]
    exact fun group member => holds_of_mem_groups act member
  case shared =>
    intro base
    exact List.filter_congr fun entry _ => decide_eq_decide.mpr pieceGroup?_eq_some_iff
  case together =>
    intro group member several
    obtain ⟨base, rfl⟩ := two_le_length_piecesAmong member several
    exact ⟨base, (map_snd_piecesOf state base).symm⟩
  case gathered => exact fun base => map_snd_piecesOf_mem_groups
  case keys_eq =>
    rw [OrderedMap.keys, facts.entries_eq, OrderedMap.keys, entries_eq_of_keysOwn own]
    simp [Function.comp_def]
  case hidden => exact fun key => facts.get?_labels_eq_none_iff own
  case named => exact fun key lookup label => facts.exists_block_of_label own
  case broken =>
    intro block group held broken
    obtain ⟨member, rfl⟩ := facts.mem_zip_iff.mp held
    have several := (holds_of_mem_groups act member).two_le_length broken
    exact ⟨several, isPair_of_two_le_length act member several⟩
  case stray => exact fun lookup present _ noPairs => singleton_mem_groups present noPairs

theorem rulesAct_of_entered
    {lookups : List Source.LookupDefinition}
    {translations : List (List CompiledLookup)}
    {log : List Notice}
    (related : List.Forall₂ (Translates definitions options) lookups translations)
    (entered : Entered {} translations.flatten log state) :
    ∀ lookup ∈ state.lookups.values, RulesAct lookup := by
  intro lookup present
  obtain ⟨draft, inside, rfl⟩ := entered.exists_draft present
  exact rulesAct_of_isDraft (isDraft_of_translates related draft inside) _

/-- Merging the lookups of a project comes to a result and conserves them. -/
theorem merge_conserves_lookups
    {statements : List Statement}
    {log : List Notice}
    (compiled : ofStatements definitions options statements = ⟨log, .ok state⟩) :
    ∃ log merged groups, state.merge = ⟨log, .ok merged⟩ ∧ Conserves state merged groups := by
  obtain ⟨translations, related, entered⟩ := entered_of_ofStatements compiled
  have own := keysOwn_of_entered entered
  obtain ⟨log, merged, pool, result, facts⟩ := merged_of_keysOwn own
  exact ⟨log, merged, _, result, facts.conserves own (rulesAct_of_entered related entered)⟩

/-- Two pieces of one lookup, whose names differ in case, with another lookup between them. -/
def scatteredPieces : List Statement :=
  [kerning "kern\\1" [("A", "V")], swash "swash", kerning "KERN\\2" [("T", "V"), ("T", "A")]]

/-- The blocks for these lookups, with the rules that a feature file has, and the labels. -/
def gatheredPieces : List (String × List String) × List (String × Option String) :=
  ([("kern", ["# kern\\1", "enum pos A V -10;", "subtable;",
      "# KERN\\2", "enum pos T V -10;", "enum pos T A -10;"]),
    ("swash", ["sub a by b;"])],
    [("kern\\1", some "kern"), ("swash", some "swash"), ("kern\\2", none)])

theorem merge_conserves_lookups_scatteredPieces :
    ∃ log state, ofStatements { glyphOrder := none } {} scatteredPieces = ⟨log, .ok state⟩
      ∧ ∃ log merged groups, state.merge = ⟨log, .ok merged⟩
          ∧ (merged.blocks.map fun block => (block.name, block.rules.map Rule.text),
              merged.labels.entries) = gatheredPieces
          ∧ Conserves state merged groups := by
  have ok : (ofStatements { glyphOrder := none } {} scatteredPieces).result.isOk := by
    decide +kernel
  have outcome : ((ofStatements { glyphOrder := none } {} scatteredPieces).result.toOption.bind
      fun state => state.merge.result.toOption.map fun merged =>
        (merged.blocks.map fun block => (block.name, block.rules.map Rule.text),
          merged.labels.entries)) = some gatheredPieces := by
    decide +kernel
  obtain ⟨log, state, compiled⟩ := Outcome.exists_of_isOk ok
  obtain ⟨later, merged, groups, result, conserved⟩ := merge_conserves_lookups compiled
  simp only [compiled, result, Except.toOption, Option.bind_some, Option.map_some,
    Option.some.injEq] at outcome
  exact ⟨log, state, compiled, later, merged, groups, result, outcome, conserved⟩

end Compilation
end GlyphLayout
