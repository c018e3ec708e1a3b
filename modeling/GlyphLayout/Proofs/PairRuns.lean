import GlyphLayout.Proofs.Conservation
import GlyphLayout.Proofs.Origins
import GlyphLayout.Proofs.Partition
import GlyphLayout.Proofs.Provenance

/-!
# Runs of pairs

The pairs of a block come in runs, between subtable breaks.  Under a limit on the size of a
subtable each run comes from one lookup of the project: it stands for consecutive pairs of that
lookup and keeps to the limit, unless no pair but the last has a size.  Two kinds of lookups are
never cut: one that has the name of a piece is taken for the result of a cut, and one with
contexts has its pairs in a helper, or among the rules for its contexts.
-/

namespace GlyphLayout

open Feature (Document Rule)
open Source (Coverage Location LookupDefinition PairAdjustment Positioning Statement)

/-- The rules for pairs, between one subtable break and the next. -/
def pairRunsOf (rules : List Rule) : List (List Rule) :=
  (rules.splitOnP (· == .subtable)).map (List.filter Rule.isPair)

/-- The runs of pairs of a block. -/
def Feature.Lookup.pairRuns (block : Feature.Lookup) : List (List Rule) :=
  pairRunsOf block.rules

namespace Compilation

variable {definitions : Definitions} {options : Options} {lookup : LookupDefinition}
  {limit : Nat}

/-! ## Runs of a block -/

theorem filter_isPair_heading
    {heading : List Rule}
    (silent : ∀ rule ∈ heading, isHeading rule) :
    heading.filter Rule.isPair = [] := by
  refine List.filter_eq_nil_iff.mpr fun rule member => ?_
  have heads := silent rule member
  cases rule <;> simp_all [isHeading, Rule.isPair]

/-- No subtable break is in a heading with the rules of a lookup behind it. -/
theorem not_break_of_mem
    {heading rules : List Rule}
    (silent : ∀ rule ∈ heading, isHeading rule)
    (acts : ∀ rule ∈ rules, rule.actsOnGlyphs) :
    ∀ rule ∈ heading ++ rules, (rule == .subtable) = false := by
  refine List.forall_mem_append.mpr ⟨fun rule member => ?_, fun rule member => ?_⟩
  · have heads := silent rule member
    cases rule <;> first | rfl | cases heads
  · have acting := acts rule member
    cases rule <;> first | rfl | cases acting

/-- A block has one run for each of the lookups that it holds. -/
theorem Holds.pairRunsOf_eq
    {rules : List Rule}
    {group : List CompiledLookup}
    (holds : Holds rules group) :
    pairRunsOf rules = group.map fun held => held.rules.filter Rule.isPair := by
  induction holds with
  | last silent acts =>
      rw [pairRunsOf, List.splitOnP_eq_singleton (not_break_of_mem silent acts), List.map_singleton,
        List.filter_append, filter_isPair_heading silent]
      rfl
  | cons silent acts _ ih =>
      rw [pairRunsOf, List.splitOnP_append_cons _ _ rfl,
        List.splitOnP_eq_singleton (not_break_of_mem silent acts), List.singleton_append,
        List.map_cons, List.filter_append, filter_isPair_heading silent, List.map_cons, ← ih]
      rfl

theorem filter_isPair_map_relabel (rename : String → String) (rules : List Rule) :
    (rules.map (Rule.relabel rename)).filter Rule.isPair = rules.filter Rule.isPair := by
  have same : Rule.isPair ∘ Rule.relabel rename = Rule.isPair := funext fun _ => Rule.isPair_relabel
  rw [List.filter_map, same]
  exact Rule.map_relabel_of_isPlain fun rule member =>
    Definitions.isPlain_of_isPair (List.mem_filter.mp member).2

/-! ## Runs of a lookup -/

/-- The rules for all pairs of a lookup that positions pairs. -/
inductive HasPairs (definitions : Definitions) (lookup : LookupDefinition) :
    List PairRule → Prop
  | intro
      {firsts seconds : List Coverage} {adjustments : List PairAdjustment}
      {pairs : List PairRule}
      (payload : lookup.payload = .positioning (.pairs firsts seconds adjustments))
      (resolved : definitions.pairRules lookup.location firsts seconds adjustments = .ok pairs) :
      HasPairs definitions lookup pairs

/-- A run stands for consecutive pairs of a lookup, which have the given sizes. -/
inductive Stretch (definitions : Definitions) (lookup : LookupDefinition) :
    List Rule → List Nat → Prop
  | intro
      {pairs stretch : List PairRule} {sizes : List Nat}
      (known : HasPairs definitions lookup pairs)
      (consecutive : stretch <:+: pairs)
      (sized : stretch.mapM (definitions.pairSize lookup.location) = .ok sizes) :
      Stretch definitions lookup (stretch.map PairRule.rule) sizes

/-- How a run of pairs comes from a lookup under a limit on the size of a subtable. -/
inductive PairRun (definitions : Definitions) (limit : Nat) (lookup : LookupDefinition) :
    List Rule → Prop
  /-- A lookup that is neither a piece nor in a context has runs that keep to the limit. -/
  | limited
      {run : List Rule} {sizes : List Nat}
      (noPiece : (LookupId.ofName lookup.name).isPiece = false)
      (stretch : Stretch definitions lookup run sizes)
      (keeps : KeepsLimit limit sizes) :
      PairRun definitions limit lookup run
  /-- A lookup with the name of a piece is a run as it stands. -/
  | piece
      {pairs : List PairRule}
      (isPiece : (LookupId.ofName lookup.name).isPiece)
      (known : HasPairs definitions lookup pairs) :
      PairRun definitions limit lookup (pairs.map PairRule.rule)
  /--
  A lookup with contexts is a run as it stands, in its helper and once more for each of its
  contexts that asks for nothing.
  -/
  | contextual
      {contexts : List RuleContext} {pairs : List PairRule}
      (surrounded : definitions.ruleContexts lookup = .ok contexts)
      (some : ∃ context ∈ contexts, context.isContextual)
      (known : HasPairs definitions lookup pairs)
      (copies : Nat) :
      PairRun definitions limit lookup (List.replicate copies (pairs.map PairRule.rule)).flatten

/-- A lookup in which there is a rule for a pair positions pairs. -/
theorem Origin.payload_of_isPair
    {rule : Rule}
    (origin : Origin definitions lookup rule)
    (pair : rule.isPair) :
    ∃ firsts seconds adjustments,
      lookup.payload = .positioning (.pairs firsts seconds adjustments) := by
  cases origin with
  | plain payload form =>
      cases form with
      | pair => exact ⟨_, _, _, payload⟩
      | single => cases pair
      | attachment _ _ _ shape => rcases shape with rfl | ⟨_, rfl⟩ | rfl <;> cases pair
      | join => cases pair
  | input _ _ _ _ _ shape => rcases shape with rfl | ⟨_, rfl⟩ <;> cases pair
  | mapping _ _ _ _ _ shape =>
      rcases shape with rfl | ⟨_, _, shaped⟩
      · cases pair
      · cases Definitions.substitutionForm_of_substitutionRule shaped <;> cases pair

/-- Pairs of two glyphs count once each. -/
theorem Stretch.sum_eq_length
    {firsts seconds : List Coverage}
    {adjustments : List PairAdjustment}
    {run : List Rule}
    {sizes : List Nat}
    (stretch : Stretch definitions lookup run sizes)
    (payload : lookup.payload = .positioning (.pairs firsts seconds adjustments))
    (firstGlyphs : ∀ coverage ∈ firsts, ∃ glyph, coverage = [.glyph glyph])
    (secondGlyphs : ∀ coverage ∈ seconds, ∃ glyph, coverage = [.glyph glyph]) :
    sizes.sum = run.length ∧ sizes.length = run.length := by
  obtain ⟨⟨samePayload, resolved⟩, consecutive, sized⟩ := stretch
  cases payload.symm.trans samePayload
  have once : ∀ size ∈ sizes, size = 1 := by
    intro size member
    obtain ⟨pair, present, counted⟩ := exists_of_mem_except_mapM sized member
    have inside := forall_of_except_mapM resolved (fun _ _ result =>
      Definitions.coverages_of_pairRule result) pair (consecutive.subset present)
    obtain ⟨_, first⟩ := firstGlyphs _ inside.1
    obtain ⟨_, second⟩ := secondGlyphs _ inside.2
    simp only [Definitions.pairSize, first, second, countsOnce] at counted
    cases counted
    rfl
  have length := (except_mapM_eq_ok_iff.mp sized).length_eq
  rw [List.length_map, length, List.eq_replicate_of_mem once]
  simp

/-! ### Pairs that are cut -/

/-- A stretch of one list is related to a stretch of the other. -/
theorem exists_infix_of_forall₂
    {α β : Type}
    {related : α → β → Prop}
    {items : List α}
    {others part : List β}
    (all : List.Forall₂ related items others)
    (inside : part <:+: others) :
    ∃ stretch, stretch <:+: items ∧ List.Forall₂ related stretch part := by
  obtain ⟨before, after, rfl⟩ := inside
  rw [List.append_assoc] at all
  have later := List.forall₂_drop_append _ _ _ all
  refine ⟨(items.drop before.length).take part.length, ?_, List.forall₂_take_append _ _ _ later⟩
  exact (List.take_prefix _ _).isInfix.trans (List.drop_suffix _ _).isInfix

/-- A piece stands for consecutive pairs and keeps to the limit. -/
theorem stretch_of_mem_pairPieces
    {pairs : List PairRule}
    {pieces : List (List Rule)}
    {piece : List Rule}
    (known : HasPairs definitions lookup pairs)
    (divided : pairPieces definitions lookup.location limit pairs = .ok pieces)
    (member : piece ∈ pieces) :
    ∃ sizes, Stretch definitions lookup piece sizes ∧ KeepsLimit limit sizes := by
  obtain ⟨sized, each, result⟩ := except_bind_eq_ok_iff.mp divided
  cases result
  obtain ⟨part, inside, rfl⟩ := List.mem_map.mp member
  have related : List.Forall₂ (fun pair value =>
      definitions.pairSize lookup.location pair = .ok value.2 ∧ pair.rule = value.1)
      pairs sized := by
    refine (except_mapM_eq_ok_iff.mp each).imp fun pair value written => ?_
    obtain ⟨size, known, same⟩ := except_bind_eq_ok_iff.mp written
    cases same
    exact ⟨known, rfl⟩
  obtain ⟨stretch, consecutive, held⟩ :=
    exists_infix_of_forall₂ related (infix_of_mem_partition inside)
  have rules : stretch.map PairRule.rule = part.map Prod.fst := by
    rw [← List.forall₂_eq_eq_eq, List.forall₂_map_left_iff, List.forall₂_map_right_iff]
    exact held.imp fun _ _ both => both.2
  have sizes : stretch.mapM (definitions.pairSize lookup.location) = .ok (part.map Prod.snd) := by
    rw [except_mapM_eq_ok_iff, List.forall₂_map_right_iff]
    exact held.imp fun _ _ both => both.1
  rw [← rules]
  exact ⟨_, .intro known consecutive sizes, keepsLimit_of_mem_partition inside⟩

/-- Pairs that stay together under a limit keep to it. -/
theorem stretch_of_stays
    {pairs : List PairRule}
    {pieces : List (List Rule)}
    (known : HasPairs definitions lookup pairs)
    (some : pairs.map PairRule.rule ≠ [])
    (divided : pairPieces definitions lookup.location limit pairs = .ok pieces)
    (few : pieces.length < 2) :
    ∃ sizes, Stretch definitions lookup (pairs.map PairRule.rule) sizes
      ∧ KeepsLimit limit sizes := by
  have joined := flatten_pairPieces divided
  match pieces with
  | [] => exact (some joined.symm).elim
  | [piece] =>
      rw [List.flatten_singleton] at joined
      exact joined ▸ stretch_of_mem_pairPieces known divided (List.mem_singleton_self piece)

/-! ### Pairs in contexts -/

theorem flatten_eq_replicate
    {α : Type}
    {parts : List (List α)}
    {whole : List α}
    (each : ∀ part ∈ parts, part = [] ∨ part = whole) :
    ∃ copies, parts.flatten = (List.replicate copies whole).flatten := by
  induction parts with
  | nil => exact ⟨0, rfl⟩
  | cons part parts ih =>
      rw [List.forall_mem_cons] at each
      obtain ⟨copies, same⟩ := ih each.2
      rw [List.flatten_cons, same]
      rcases each.1 with rfl | rfl
      · exact ⟨copies, List.nil_append _⟩
      · exact ⟨copies + 1, by rw [List.replicate_succ, List.flatten_cons]⟩

/-- Plain rules of a lookup that positions pairs are the rules for its pairs. -/
theorem exists_hasPairs_of_plainRules
    {firsts seconds : List Coverage}
    {adjustments : List PairAdjustment}
    {plain : PlainRules}
    (payload : lookup.payload = .positioning (.pairs firsts seconds adjustments))
    (resolved : definitions.plainRules lookup.location (.pairs firsts seconds adjustments) =
      .ok plain) :
    ∃ pairs, HasPairs definitions lookup pairs ∧ plain.rules = pairs.map PairRule.rule := by
  obtain ⟨pairs, found, result⟩ := except_bind_eq_ok_iff.mp resolved
  cases result
  exact ⟨pairs, .intro payload found, rfl⟩

theorem HasPairs.unique
    {pairs others : List PairRule}
    (known : HasPairs definitions lookup pairs)
    (again : HasPairs definitions lookup others) :
    pairs = others := by
  obtain ⟨payload, resolved⟩ := known
  obtain ⟨samePayload, again⟩ := again
  rw [payload] at samePayload
  cases samePayload
  exact Except.ok.inj (resolved.symm.trans again)

theorem HasPairs.filter_isPair
    {pairs : List PairRule}
    (known : HasPairs definitions lookup pairs) :
    (pairs.map PairRule.rule).filter Rule.isPair = pairs.map PairRule.rule := by
  obtain ⟨_, resolved⟩ := known
  exact List.filter_eq_self.mpr (Definitions.isPair_of_pairRules resolved)

/-- In one context a lookup has its pairs, or no pairs at all. -/
theorem filter_isPair_of_contextRules
    {firsts seconds : List Coverage}
    {adjustments : List PairAdjustment}
    {target : String}
    {context : RuleContext}
    {rules : List Rule}
    (payload : lookup.payload = .positioning (.pairs firsts seconds adjustments))
    (written : contextRules definitions lookup (.pairs firsts seconds adjustments) target context =
      .ok rules) :
    rules.filter Rule.isPair = []
      ∨ ∃ pairs, HasPairs definitions lookup pairs
          ∧ rules.filter Rule.isPair = pairs.map PairRule.rule := by
  unfold contextRules at written
  split at written
  · obtain ⟨plain, resolved, result⟩ := except_bind_eq_ok_iff.mp written
    cases result
    obtain ⟨pairs, known, same⟩ := exists_hasPairs_of_plainRules payload resolved
    exact .inr ⟨pairs, known, same ▸ known.filter_isPair⟩
  · split at written
    · cases written
      exact .inl rfl
    · obtain ⟨inputs, _, result⟩ := except_bind_eq_ok_iff.mp written
      cases result
      refine .inl (List.filter_eq_nil_iff.mpr fun rule member => ?_)
      obtain ⟨input, _, rfl⟩ := List.mem_map.mp member
      split <;> simp [Rule.isPair]

/-- In some contexts a lookup has its pairs several times. -/
theorem exists_copies_of_contextRules
    {firsts seconds : List Coverage}
    {adjustments : List PairAdjustment}
    {target : String}
    {contexts : List RuleContext}
    {rules : List (List Rule)}
    (payload : lookup.payload = .positioning (.pairs firsts seconds adjustments))
    (written : contexts.mapM
      (contextRules definitions lookup (.pairs firsts seconds adjustments) target) = .ok rules)
    (some : rules.flatten.filter Rule.isPair ≠ []) :
    ∃ pairs copies, HasPairs definitions lookup pairs
      ∧ rules.flatten.filter Rule.isPair =
          (List.replicate copies (pairs.map PairRule.rule)).flatten := by
  have each := forall_of_except_mapM written fun _ _ result =>
    filter_isPair_of_contextRules payload result
  rw [List.filter_flatten] at some ⊢
  obtain ⟨part, member, filled⟩ : ∃ part ∈ rules, part.filter Rule.isPair ≠ [] := by
    simpa [List.flatten_eq_nil_iff] using some
  rcases each part member with none | ⟨pairs, known, _⟩
  · exact (filled none).elim
  · have copied : ∀ part ∈ rules.map (List.filter Rule.isPair),
        part = [] ∨ part = pairs.map PairRule.rule := by
      refine List.forall_mem_map.mpr fun part member => (each part member).imp_right ?_
      rintro ⟨others, again, same⟩
      rw [same, known.unique again]
    obtain ⟨copies, same⟩ := flatten_eq_replicate copied
    exact ⟨pairs, copies, known, same⟩

/-! ### All translations -/

theorem TranslatesPositioning.pairRun
    {firsts seconds : List Coverage}
    {adjustments : List PairAdjustment}
    {contexts : List RuleContext}
    {draft other : CompiledLookup}
    {drafts : List CompiledLookup}
    (limited : options.pairLimit = some limit)
    (translated : TranslatesPositioning definitions options lookup
      (.pairs firsts seconds adjustments) contexts draft drafts)
    (payload : lookup.payload = .positioning (.pairs firsts seconds adjustments))
    (surrounded : definitions.ruleContexts lookup = .ok contexts)
    (named : draft.id = LookupId.ofName lookup.name)
    (present : other ∈ drafts)
    (some : other.rules.filter Rule.isPair ≠ []) :
    PairRun definitions limit lookup (other.rules.filter Rule.isPair) := by
  cases translated with
  | whole shape plain resolved stays =>
      cases shape
      have known := HasPairs.intro payload resolved
      rw [List.mem_singleton] at present
      subst present
      rw [known.filter_isPair] at some ⊢
      cases isPiece : (LookupId.ofName lookup.name).isPiece with
      | true => exact .piece isPiece known
      | false =>
          obtain ⟨pieces, divided, few⟩ := stays limit limited (named ▸ isPiece)
          obtain ⟨_, stretch, keeps⟩ := stretch_of_stays known some divided few
          exact .limited isPiece stretch keeps
  | cut shape plain resolved again noPiece divided several =>
      cases shape
      rw [limited] at again
      cases again
      have known := HasPairs.intro payload resolved
      obtain ⟨_, rules, held, _, rfl⟩ := mem_pieceDrafts present
      have pairs : rules.filter Rule.isPair = rules :=
        List.filter_eq_self.mpr fun rule inside =>
          Definitions.isPair_of_pairRules resolved rule (mem_of_mem_pairPieces divided held inside)
      obtain ⟨_, stretch, keeps⟩ := stretch_of_mem_pairPieces known divided held
      change PairRun definitions limit lookup (rules.filter Rule.isPair)
      rw [pairs]
      exact .limited (named ▸ noPiece) stretch keeps
  | @contextual plain rules noPairs helped _ written =>
      have contextual : ∃ context ∈ contexts, context.isContextual := by
        simpa [isPlainPairs] using noPairs
      rcases mem_helped_iff.mp present with ⟨needed, rfl⟩ | rfl
      · obtain ⟨pairs, known, same⟩ := exists_hasPairs_of_plainRules payload (helped needed)
        change PairRun definitions limit lookup (plain.rules.filter Rule.isPair)
        rw [same, known.filter_isPair]
        have once : PairRun definitions limit lookup
            (List.replicate 1 (pairs.map PairRule.rule)).flatten :=
          .contextual surrounded contextual known 1
        rwa [List.replicate_one, List.flatten_singleton] at once
      · obtain ⟨pairs, copies, known, same⟩ := exists_copies_of_contextRules payload written some
        change PairRun definitions limit lookup (rules.flatten.filter Rule.isPair)
        rw [same]
        exact .contextual surrounded contextual known copies

/-- The pairs of a lookup that a definition is translated to are a run that comes from it. -/
theorem Translates.pairRun
    {drafts : List CompiledLookup}
    {draft : CompiledLookup}
    (limited : options.pairLimit = some limit)
    (translated : Translates definitions options lookup drafts)
    (present : draft ∈ drafts)
    (some : draft.rules.filter Rule.isPair ≠ []) :
    PairRun definitions limit lookup (draft.rules.filter Rule.isPair) := by
  obtain ⟨rule, member⟩ := List.exists_mem_of_ne_nil _ some
  obtain ⟨inside, pair⟩ := List.mem_filter.mp member
  obtain ⟨firsts, seconds, adjustments, payload⟩ :=
    (translated.origin present inside).payload_of_isPair pair
  cases translated with
  | substitution _ _ other => cases payload.symm.trans other
  | positioning flagged surrounded same overlaps translated =>
      cases payload.symm.trans same
      exact translated.pairRun limited payload surrounded rfl present some

theorem Gathers.pairRun
    {statements : List Statement}
    {block : Feature.Lookup}
    {run : List Rule}
    (limited : options.pairLimit = some limit)
    (gathers : Gathers definitions options statements block)
    (member : run ∈ block.pairRuns)
    (some : run ≠ []) :
    ∃ lookup ∈ lookupsOf statements, PairRun definitions limit lookup run := by
  obtain ⟨pool, group, rfl, filled, each⟩ := gathers
  have acts : ∀ held ∈ group, ∀ rule ∈ held.rules, rule.actsOnGlyphs := by
    intro held inside
    obtain ⟨_, _, _, translated, draft, present, rename, rfl⟩ := each held inside
    exact (rulesAct_of_isDraft (translated.isDraft draft present) rename).1
  rw [Feature.Lookup.pairRuns, (holds_blockFor filled acts).pairRunsOf_eq] at member
  obtain ⟨held, inside, rfl⟩ := List.mem_map.mp member
  obtain ⟨lookup, defined, _, translated, draft, present, rename, rfl⟩ := each held inside
  rw [CompiledLookup.rules_relabel, filter_isPair_map_relabel] at some ⊢
  exact ⟨lookup, defined, translated.pairRun limited present some⟩

end Compilation

open Compilation

/--
Under a limit, each run of pairs of a feature file comes from a lookup of the project.  Unless
that lookup has the name of a piece or one of its contexts asks for something, the run stands for
consecutive pairs of it and keeps to the limit.
-/
theorem convert_pairRuns_of_limit
    {statements : List Statement}
    {glyphOrder : Option GlyphOrder}
    {options : Options}
    {limit : Nat}
    {log : List Notice}
    {document : Document}
    (limited : options.pairLimit = some limit)
    (converted : convert statements glyphOrder options = ⟨log, .ok document⟩) :
    ∃ definitions,
      (Definitions.collect statements glyphOrder).result = .ok definitions
        ∧ ∀ block ∈ document.lookups, ∀ run ∈ block.pairRuns, run ≠ [] →
            ∃ lookup ∈ lookupsOf statements, PairRun definitions limit lookup run := by
  obtain ⟨_, definitions, _, _, collected, _, _, _, gathers⟩ := sources_of_convert converted
  refine ⟨definitions, by rw [collected], fun block listed run member some => ?_⟩
  exact (gathers block listed).pairRun limited member some

/-- A lookup for three pairs of glyphs, in some contexts. -/
def threePairs (name : String) (contexts : List Source.ContextDefinition) : List Statement :=
  [lookupNamed name contexts (.positioning (.pairs
    [[.glyph "A"], [.glyph "T"]]
    [[.glyph "V"], [.glyph "Y"]]
    ([(1, 1), (2, 1), (2, 2)].map fun place => {
      first := place.1
      second := place.2
      firstPlacement := { advance := some (-10) }
      secondPlacement := {} })))]

theorem convert_pairRuns_of_limit_threePairs :
    ∃ log document,
      convert (threePairs "kern" []) none { pairLimit := some 2 } = ⟨log, .ok document⟩
        ∧ (document.lookups.map fun block => block.pairRuns.map List.length) = [[2, 1]]
        ∧ ∃ definitions,
            (Definitions.collect (threePairs "kern" []) none).result = .ok definitions
              ∧ ∀ block ∈ document.lookups, ∀ run ∈ block.pairRuns, run ≠ [] →
                  ∃ lookup ∈ lookupsOf (threePairs "kern" []),
                    PairRun definitions 2 lookup run := by
  obtain ⟨log, document, converted⟩ : ∃ log document,
      convert (threePairs "kern" []) none { pairLimit := some 2 } = ⟨log, .ok document⟩ :=
    Outcome.exists_of_isOk (by decide +kernel)
  refine ⟨log, document, converted, ?_, convert_pairRuns_of_limit rfl converted⟩
  have runs : (convert (threePairs "kern" []) none { pairLimit := some 2 }).result.toOption.map
      (fun document => document.lookups.map fun block => block.pairRuns.map List.length) =
        some [[2, 1]] := by
    decide +kernel
  rw [converted] at runs
  exact Option.some.inj runs

/-- Every run of pairs stands for consecutive pairs of a lookup and keeps to the limit. -/
def PairRunsKeep (statements : List Statement) (limit : Nat) : Prop :=
  ∀ (glyphOrder : Option GlyphOrder) (options : Options) (log : List Notice)
    (document : Document),
    options.pairLimit = some limit →
    convert statements glyphOrder options = ⟨log, .ok document⟩ →
      ∃ definitions,
        (Definitions.collect statements glyphOrder).result = .ok definitions
          ∧ ∀ block ∈ document.lookups, ∀ run ∈ block.pairRuns, run ≠ [] →
              ∃ lookup ∈ lookupsOf statements, ∃ sizes,
                Stretch definitions lookup run sizes ∧ (sizes.sum ≤ limit ∨ sizes.length = 1)

theorem not_pairRunsKeep_of_length
    {name : String}
    {contexts : List Source.ContextDefinition}
    {limit : Nat}
    (lengths : List Nat)
    (length : Nat)
    (runs : (convert (threePairs name contexts) none
      { pairLimit := some limit }).result.toOption.map (fun document =>
        document.lookups.flatMap fun block => block.pairRuns.map List.length) = some lengths)
    (present : length ∈ lengths)
    (several : 1 < length)
    (beyond : limit < length) :
    ¬ PairRunsKeep (threePairs name contexts) limit := by
  intro keep
  obtain ⟨log, document, converted⟩ : ∃ log document,
      convert (threePairs name contexts) none { pairLimit := some limit } = ⟨log, .ok document⟩ := by
    refine Outcome.exists_of_isOk ?_
    cases result : (convert (threePairs name contexts) none { pairLimit := some limit }).result with
    | ok document => rfl
    | error error => simp [result, Except.toOption] at runs
  obtain ⟨definitions, _, each⟩ := keep _ _ _ _ rfl converted
  rw [converted] at runs
  replace runs : (document.lookups.flatMap fun block => block.pairRuns.map List.length) = lengths :=
    Option.some.inj runs
  obtain ⟨block, listed, inside⟩ := List.mem_flatMap.mp (runs ▸ present)
  obtain ⟨run, member, rfl⟩ := List.mem_map.mp inside
  obtain ⟨lookup, defined, sizes, stretch, keeps⟩ :=
    each block listed run member (List.ne_nil_of_length_pos (by omega))
  rw [List.mem_singleton.mp defined] at stretch
  obtain ⟨sum, length⟩ := stretch.sum_eq_length rfl (by simp) (by simp)
  omega

/-- The name of a piece and a context both keep a lookup from being cut. -/
theorem not_pairRunsKeep_threePairs :
    ¬ PairRunsKeep (threePairs "kern\\1" []) 2
      ∧ ¬ PairRunsKeep (threePairs "kern" [⟨.within, [[.glyph "x"]], []⟩]) 2 := by
  constructor
  · exact not_pairRunsKeep_of_length [3] 3 (by decide +kernel) (by decide) (by decide)
      (by decide)
  · exact not_pairRunsKeep_of_length [3, 0] 3 (by decide +kernel) (by decide) (by decide)
      (by decide)

end GlyphLayout
