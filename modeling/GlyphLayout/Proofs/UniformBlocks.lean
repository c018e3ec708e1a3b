import GlyphLayout.Proofs.Provenance
import GlyphLayout.Proofs.Retention
import GlyphLayout.Proofs.SubstitutionArity

/-!
# One type of rules

The rules of a block are all contextual or all plain, with one exception.  A definition may have
several contexts, one of which asks for nothing while another one does ask for something.  If the
lookup has anything to write, its block then has rules of both types.
-/

namespace GlyphLayout

open Feature (Document Glyphs Rule)
open Source (ContextDefinition Coverage LookupDefinition Mapping Positioning Statement Substitution
  SubstitutionKind)

/-! ## Types of rules -/

namespace Feature

/-- The rule is a contextual one: it is written with marked input. -/
def Rule.isContextual : Rule → Bool
  | singleSub context .. | multipleSub context .. | ligatureSub context .. | reverseSub context .. =>
      context.isContextual
  | ignoreSub .. | ignorePos .. | chainPos .. => true
  | _ => false

/-- The rules that act on glyphs are of one type, contextual or plain. -/
def Rule.OfOneType (rules : List Rule) : Prop :=
  (∀ rule ∈ rules, rule.actsOnGlyphs → rule.isContextual = true)
    ∨ ∀ rule ∈ rules, rule.actsOnGlyphs → rule.isContextual = false

instance (rules : List Rule) : Decidable (Rule.OfOneType rules) :=
  inferInstanceAs (Decidable (_ ∨ _))

/-- The rules of a block that act on glyphs are of one type. -/
def Lookup.IsUniform (block : Lookup) : Prop :=
  Rule.OfOneType block.rules

instance (block : Lookup) : Decidable block.IsUniform :=
  inferInstanceAs (Decidable (Rule.OfOneType block.rules))

namespace Rule

variable {rules others : List Rule} {rename : String → String} {rule : Rule}

@[simp] theorem isContextual_relabel : (rule.relabel rename).isContextual = rule.isContextual := by
  cases rule <;> rfl

/-- Rules are not of one type exactly if some of them are contextual and some are not. -/
theorem ofOneType_iff (acts : ∀ rule ∈ rules, rule.actsOnGlyphs) :
    OfOneType rules ↔
      ¬ ((∃ rule ∈ rules, rule.isContextual = true)
          ∧ ∃ rule ∈ rules, rule.isContextual = false) := by
  constructor
  · rintro (all | all) ⟨⟨first, firstListed, marked⟩, second, secondListed, plain⟩
    · simp [all second secondListed (acts second secondListed)] at plain
    · simp [all first firstListed (acts first firstListed)] at marked
  · intro apart
    by_cases marked : ∃ rule ∈ rules, rule.isContextual = true
    · refine .inl fun rule listed _ => Bool.of_not_eq_false fun plain => ?_
      exact apart ⟨marked, rule, listed, plain⟩
    · exact .inr fun rule listed _ => Bool.of_not_eq_true fun found =>
        marked ⟨rule, listed, found⟩

theorem ofOneType_map_relabel : OfOneType (rules.map (relabel rename)) ↔ OfOneType rules := by
  simp [OfOneType]

/-- Only the rules that act on glyphs matter. -/
theorem ofOneType_congr
    (same : ∀ rule : Rule, rule.actsOnGlyphs → (rule ∈ rules ↔ rule ∈ others)) :
    OfOneType rules ↔ OfOneType others := by
  have swap (kind : Bool) :
      (∀ rule ∈ rules, rule.actsOnGlyphs → rule.isContextual = kind) ↔
        ∀ rule ∈ others, rule.actsOnGlyphs → rule.isContextual = kind := by
    constructor
    · exact fun all rule listed acts => all rule ((same rule acts).mpr listed) acts
    · exact fun all rule listed acts => all rule ((same rule acts).mp listed) acts
  rw [OfOneType, swap, swap, OfOneType]

end Rule
end Feature

open Feature.Rule (OfOneType ofOneType_iff ofOneType_map_relabel ofOneType_congr)

/-! ## Contexts -/

/-- The context asks for nothing: the lookup applies in it whatever stands around. -/
def Source.ContextDefinition.AsksNothing (context : ContextDefinition) : Prop :=
  context.kind = .within ∧ ∀ coverage ∈ context.left ++ context.right, coverage = []

namespace Definitions

variable {definitions : Definitions} {lookup : LookupDefinition} {location : Source.Location}

theorem eq_nil_iff_of_resolve
    {coverage : Coverage}
    {references : List Glyphs}
    (resolved : definitions.resolve location coverage = .ok references) :
    references = [] ↔ coverage = [] := by
  rw [← List.length_eq_zero_iff, length_resolve resolved, List.length_eq_zero_iff]

theorem eq_nil_iff_of_resolveSequence
    {coverages : List Coverage}
    {references : List Glyphs}
    (resolved : definitions.resolveSequence location coverages = .ok references) :
    references = [] ↔ ∀ coverage ∈ coverages, coverage = [] := by
  obtain ⟨parts, each, result⟩ := except_bind_eq_ok_iff.mp resolved
  cases result
  have related := except_mapM_eq_ok_iff.mp each
  rw [List.flatten_eq_nil_iff]
  clear each resolved
  induction related with
  | nil => simp
  | cons head _ ih =>
      rw [List.forall_mem_cons, List.forall_mem_cons]
      exact and_congr (eq_nil_iff_of_resolve head) ih

/-- It takes contextual rules to write a lookup in a context unless the context asks for nothing. -/
theorem isContextual_eq_false_iff
    {definition : ContextDefinition}
    {context : RuleContext}
    (resolved : definitions.ruleContext lookup definition = .ok context) :
    context.isContextual = false ↔ definition.AsksNothing := by
  obtain ⟨backtrack, before, resolved⟩ := except_bind_eq_ok_iff.mp resolved
  obtain ⟨lookahead, behind, result⟩ := except_bind_eq_ok_iff.mp resolved
  cases result
  rw [ContextDefinition.AsksNothing, List.forall_mem_append, ← eq_nil_iff_of_resolveSequence before,
    ← eq_nil_iff_of_resolveSequence behind]
  cases definition.kind <;> simp [RuleContext.isContextual, Feature.Context.isContextual]

theorem isContextual_eq_true_iff
    {definition : ContextDefinition}
    {context : RuleContext}
    (resolved : definitions.ruleContext lookup definition = .ok context) :
    context.isContextual = true ↔ ¬ definition.AsksNothing := by
  rw [← isContextual_eq_false_iff resolved, Bool.not_eq_false]

/-- A lookup is written with contextual rules and with plain ones as well exactly if one of its
contexts asks for something and another one for nothing. -/
theorem exists_isContextual_iff
    {contexts : List RuleContext}
    (surrounded : definitions.ruleContexts lookup = .ok contexts) :
    ((∃ context ∈ contexts, context.isContextual = true)
        ∧ ∃ context ∈ contexts, context.isContextual = false) ↔
      (∃ context ∈ lookup.contexts, ¬ context.AsksNothing)
        ∧ ∃ context ∈ lookup.contexts, context.AsksNothing := by
  unfold ruleContexts at surrounded
  rcases given : lookup.contexts with _ | ⟨first, _ | ⟨second, rest⟩⟩ <;>
    simp only [given] at surrounded
  · cases surrounded
    simp [RuleContext.isContextual, Feature.Context.isContextual]
  · obtain ⟨context, resolved, result⟩ := except_bind_eq_ok_iff.mp surrounded
    cases result
    refine iff_of_false ?_ (by simp)
    split
    · rename_i ignored
      simp [RuleContext.elsewhere, RuleContext.isContextual, Feature.Context.isContextual, ignored]
    · simp
  · have each := except_mapM_eq_ok_iff.mp surrounded
    constructor
    · rintro ⟨⟨context, listed, marked⟩, other, otherListed, plain⟩
      obtain ⟨asking, defined, resolved⟩ := exists_of_mem_right each listed
      obtain ⟨blank, otherDefined, otherResolved⟩ := exists_of_mem_right each otherListed
      exact ⟨⟨asking, defined, (isContextual_eq_true_iff resolved).mp marked⟩,
        blank, otherDefined, (isContextual_eq_false_iff otherResolved).mp plain⟩
    · rintro ⟨⟨asking, defined, asks⟩, blank, otherDefined, nothing⟩
      obtain ⟨context, listed, resolved⟩ := exists_of_mem_left each defined
      obtain ⟨other, otherListed, otherResolved⟩ := exists_of_mem_left each otherDefined
      exact ⟨⟨context, listed, (isContextual_eq_true_iff resolved).mpr asks⟩,
        other, otherListed, (isContextual_eq_false_iff otherResolved).mpr nothing⟩

/-! ## Rules in a context -/

theorem isContextual_of_substitutionRule
    {kind : SubstitutionKind}
    {context : Feature.Context}
    {input output : List Glyphs}
    {rule : Rule}
    (shaped : substitutionRule kind context input output = some rule) :
    rule.isContextual = context.isContextual := by
  cases substitutionForm_of_substitutionRule shaped <;> rfl

/-- A mapping that says something has a rule of the type of its context. -/
theorem isContextual_of_mappingRule
    {kind : SubstitutionKind}
    {context : RuleContext}
    {mapping : Mapping}
    {log : List Notice}
    {written : Option Rule}
    (mapped : definitions.mappingRule kind context mapping = ⟨log, .ok written⟩) :
    (¬ mapping.Filled ∧ written = none)
      ∨ mapping.Filled ∧ ∃ rule, written = some rule
          ∧ rule.isContextual = context.isContextual := by
  cases mapsTo_of_mappingRule mapped with
  | blank empty => exact .inl ⟨empty, rfl⟩
  | ignored filled ruledOut =>
      exact .inr ⟨filled, _, rfl, by simp [Rule.isContextual, RuleContext.isContextual, ruledOut]⟩
  | written filled applies _ _ shaped =>
      refine .inr ⟨filled, _, rfl, ?_⟩
      rw [isContextual_of_substitutionRule shaped]
      simp [RuleContext.isContextual, applies]

/-- The rules of a substitution are of the type of their context, and there are some if a mapping
says something. -/
theorem of_substitutionRules
    {substitution : Substitution}
    {context : RuleContext}
    {log : List Notice}
    {rules : List Rule}
    (written : definitions.substitutionRules substitution context = ⟨log, .ok rules⟩) :
    (∀ rule ∈ rules, rule.isContextual = context.isContextual)
      ∧ (rules ≠ [] ↔ ∃ mapping ∈ substitution.mappings, mapping.Filled) := by
  obtain ⟨traversal, found, _, traversed, result, _⟩ := Outcome.bind_eq_ok_iff.mp written
  cases result
  have each := Outcome.exists_mapM_eq_ok_iff.mp ⟨traversal, traversed⟩
  constructor
  · intro rule member
    obtain ⟨_, present, rfl⟩ := List.mem_filterMap.mp member
    obtain ⟨mapping, _, part, mapped⟩ := exists_of_mem_right each present
    rcases isContextual_of_mappingRule mapped with ⟨_, none⟩ | ⟨_, other, same, kind⟩
    · cases none
    · cases same
      exact kind
  · constructor
    · intro some
      obtain ⟨rule, member⟩ := List.exists_mem_of_ne_nil _ some
      obtain ⟨_, present, rfl⟩ := List.mem_filterMap.mp member
      obtain ⟨mapping, listed, part, mapped⟩ := exists_of_mem_right each present
      rcases isContextual_of_mappingRule mapped with ⟨_, none⟩ | ⟨filled, _⟩
      · cases none
      · exact ⟨mapping, listed, filled⟩
    · rintro ⟨mapping, listed, filled⟩
      obtain ⟨_, present, part, mapped⟩ := exists_of_mem_left each listed
      rcases isContextual_of_mappingRule mapped with ⟨blank, _⟩ | ⟨_, rule, rfl, _⟩
      · exact (blank filled).elim
      · exact List.ne_nil_of_mem (List.mem_filterMap.mpr ⟨_, present, rfl⟩)

theorem PlainForm.isContextual
    {positioning : Positioning}
    {rule : Rule}
    (form : PlainForm definitions location positioning rule) :
    rule.isContextual = false := by
  cases form with
  | pair | single | join => rfl
  | attachment _ _ _ shape => rcases shape with rfl | ⟨_, rfl⟩ | rfl <;> rfl

end Definitions

namespace Compilation

variable {definitions : Definitions} {options : Options} {lookup : LookupDefinition}

/-- The rules of a positioning lookup are of the type of their context. -/
theorem isContextual_of_contextRules
    {positioning : Positioning}
    {target : String}
    {context : RuleContext}
    {rules : List Rule}
    (written : contextRules definitions lookup positioning target context = .ok rules) :
    ∀ rule ∈ rules, rule.isContextual = context.isContextual := by
  intro rule member
  cases contextRule_of_mem written member with
  | plain everywhere resolved member =>
      rw [(Definitions.plainForm_of_mem resolved member).isContextual, everywhere]
  | ignored contextual => exact contextual.symm
  | chained contextual => exact contextual.symm

/-- A positioning lookup without an obstacle has its plain rules where a context asks for nothing,
and a rule for each input sequence elsewhere. -/
theorem of_contextRules
    {positioning : Positioning}
    {target : String}
    {context : RuleContext}
    {rules : List Rule}
    (free : obstacle? lookup positioning = none)
    (written : contextRules definitions lookup positioning target context = .ok rules) :
    (context.isContextual = false →
        ∃ plain, definitions.plainRules lookup.location positioning = .ok plain
          ∧ plain.rules = rules)
      ∧ (context.isContextual = true →
        ∃ inputs, definitions.inputSequences lookup.location positioning = .ok inputs
          ∧ inputs.length = rules.length) := by
  constructor <;> intro kind <;>
    simp only [contextRules, kind, free, Bool.not_true, Bool.not_false, if_true,
      Bool.false_eq_true, if_false, Option.isSome_none] at written
  · obtain ⟨plain, resolved, result⟩ := except_bind_eq_ok_iff.mp written
    exact ⟨plain, resolved, Except.ok.inj result⟩
  · obtain ⟨inputs, resolved, result⟩ := except_bind_eq_ok_iff.mp written
    cases result
    exact ⟨inputs, resolved, List.length_map .. |>.symm⟩

/-- What has plain rules has input sequences as well. -/
theorem inputs_ne_nil
    {positioning : Positioning}
    {plain : PlainRules}
    {inputs : List (List Glyphs)}
    (free : obstacle? lookup positioning = none)
    (resolved : definitions.plainRules lookup.location positioning = .ok plain)
    (sequences : definitions.inputSequences lookup.location positioning = .ok inputs)
    (some : plain.rules ≠ []) :
    inputs ≠ [] := by
  cases positioning with
  | pairs firsts seconds adjustments =>
      obtain ⟨pairs, each, result⟩ := except_bind_eq_ok_iff.mp resolved
      cases result
      have pairsLength := (except_mapM_eq_ok_iff.mp each).length_eq
      have inputsLength := (except_mapM_eq_ok_iff.mp sequences).length_eq
      rw [Ne, List.map_eq_nil_iff, ← List.length_eq_zero_iff] at some
      rw [Ne, ← List.length_eq_zero_iff]
      omega
  | singles | attach =>
      obtain ⟨_, _, result⟩ := except_bind_eq_ok_iff.mp sequences
      cases result
      exact List.cons_ne_nil _ _
  | cursive =>
      unfold obstacle? at free
      split at free <;> cases free

/-! ## Lookups of both types -/

/-- The lookup has rules to write, in every context. -/
def WritesRules (definitions : Definitions) (lookup : LookupDefinition) : Prop :=
  match lookup.payload with
  | .substitution substitution => ∃ mapping ∈ substitution.mappings, mapping.Filled
  | .positioning positioning =>
      obstacle? lookup positioning = none
        ∧ ∃ plain, definitions.plainRules lookup.location positioning = .ok plain
            ∧ plain.rules ≠ []

/-- The lookup has rules to write, in a context that asks for something and in one that asks for
nothing. -/
def Mixes (definitions : Definitions) (lookup : LookupDefinition) : Prop :=
  WritesRules definitions lookup
    ∧ (∃ context ∈ lookup.contexts, ¬ context.AsksNothing)
    ∧ ∃ context ∈ lookup.contexts, context.AsksNothing

theorem exists_mem_flatten_iff
    {contexts : List RuleContext}
    {parts : List (List Rule)}
    {kind : Bool}
    {writes : Prop}
    (related : List.Forall₂ (fun context part =>
      (∀ rule ∈ part, rule.isContextual = context.isContextual)
        ∧ (context.isContextual = kind → (part ≠ [] ↔ writes))) contexts parts) :
    (∃ rule ∈ parts.flatten, rule.isContextual = kind) ↔
      writes ∧ ∃ context ∈ contexts, context.isContextual = kind := by
  constructor
  · rintro ⟨rule, member, rfl⟩
    obtain ⟨part, listed, inside⟩ := List.mem_flatten.mp member
    obtain ⟨context, given, same, writes_iff⟩ := exists_of_mem_right related listed
    have kind := (same rule inside).symm
    exact ⟨(writes_iff kind).mp (List.ne_nil_of_mem inside), context, given, kind⟩
  · rintro ⟨writes, context, given, kind⟩
    obtain ⟨part, listed, same, writes_iff⟩ := exists_of_mem_left related given
    obtain ⟨rule, inside⟩ := List.exists_mem_of_ne_nil _ ((writes_iff kind).mpr writes)
    exact ⟨rule, List.mem_flatten.mpr ⟨part, listed, inside⟩, (same rule inside).trans kind⟩

/-- A substitution has rules of both types exactly if it mixes them. -/
theorem mixes_iff_of_substitution
    {substitution : Substitution}
    {contexts : List RuleContext}
    {log : List Notice}
    {rules : List (List Rule)}
    (surrounded : definitions.ruleContexts lookup = .ok contexts)
    (payload : lookup.payload = .substitution substitution)
    (written : contexts.mapM (definitions.substitutionRules substitution) = ⟨log, .ok rules⟩) :
    ((∃ rule ∈ rules.flatten, rule.isContextual = true)
        ∧ ∃ rule ∈ rules.flatten, rule.isContextual = false) ↔ Mixes definitions lookup := by
  have each (kind : Bool) : List.Forall₂ (fun context part =>
      (∀ rule ∈ part, rule.isContextual = context.isContextual)
        ∧ (context.isContextual = kind →
            (part ≠ [] ↔ WritesRules definitions lookup))) contexts rules := by
    refine (Outcome.exists_mapM_eq_ok_iff.mp ⟨log, written⟩).imp fun context part => ?_
    rintro ⟨_, result⟩
    obtain ⟨same, writes_iff⟩ := Definitions.of_substitutionRules result
    simp only [WritesRules, payload]
    exact ⟨same, fun _ => writes_iff⟩
  rw [exists_mem_flatten_iff (each true), exists_mem_flatten_iff (each false), Mixes,
    ← Definitions.exists_isContextual_iff surrounded, and_and_and_comm, and_self]

/-- No context that asks for something has any rules where there is an obstacle. -/
theorem isContextual_of_obstacle
    {positioning : Positioning}
    {contexts : List RuleContext}
    {construct : Construct}
    {target : String}
    {rules : List (List Rule)}
    (obstacle : obstacle? lookup positioning = some construct)
    (written : contexts.mapM (contextRules definitions lookup positioning target) = .ok rules) :
    ∀ rule ∈ rules.flatten, rule.isContextual = false := by
  intro rule member
  obtain ⟨part, listed, inside⟩ := List.mem_flatten.mp member
  obtain ⟨context, _, result⟩ := exists_of_mem_right (except_mapM_eq_ok_iff.mp written) listed
  have same := isContextual_of_contextRules result rule inside
  cases marked : context.isContextual with
  | false => exact same.trans marked
  | true =>
      rw [contextRules_of_obstacle marked obstacle] at result
      cases result
      cases inside

/-- Without an obstacle there are plain rules if some context asks for nothing. -/
theorem exists_plain_iff
    {positioning : Positioning}
    {contexts : List RuleContext}
    {target : String}
    {rules : List (List Rule)}
    (payload : lookup.payload = .positioning positioning)
    (free : obstacle? lookup positioning = none)
    (written : contexts.mapM (contextRules definitions lookup positioning target) = .ok rules) :
    (∃ rule ∈ rules.flatten, rule.isContextual = false) ↔
      WritesRules definitions lookup ∧ ∃ context ∈ contexts, context.isContextual = false := by
  refine exists_mem_flatten_iff ((except_mapM_eq_ok_iff.mp written).imp fun context part result =>
    ⟨isContextual_of_contextRules result, fun kind => ?_⟩)
  obtain ⟨plain, resolved, rfl⟩ := (of_contextRules free result).1 kind
  simp [WritesRules, payload, free, resolved]

/-- Without an obstacle there are contextual rules if some context asks for something. -/
theorem exists_contextual_iff
    {positioning : Positioning}
    {contexts : List RuleContext}
    {target : String}
    {rules : List (List Rule)}
    (free : obstacle? lookup positioning = none)
    (written : contexts.mapM (contextRules definitions lookup positioning target) = .ok rules) :
    (∃ rule ∈ rules.flatten, rule.isContextual = true) ↔
      (∃ inputs, definitions.inputSequences lookup.location positioning = .ok inputs
          ∧ inputs ≠ [])
        ∧ ∃ context ∈ contexts, context.isContextual = true := by
  refine exists_mem_flatten_iff ((except_mapM_eq_ok_iff.mp written).imp fun context part result =>
    ⟨isContextual_of_contextRules result, fun kind => ?_⟩)
  obtain ⟨inputs, sequences, length⟩ := (of_contextRules free result).2 kind
  simp [sequences, ← List.length_eq_zero_iff, length]

/-- A positioning lookup has rules of both types exactly if it mixes them. -/
theorem mixes_iff_of_positioning
    {positioning : Positioning}
    {contexts : List RuleContext}
    {target : String}
    {rules : List (List Rule)}
    (surrounded : definitions.ruleContexts lookup = .ok contexts)
    (payload : lookup.payload = .positioning positioning)
    (written : contexts.mapM (contextRules definitions lookup positioning target) = .ok rules) :
    ((∃ rule ∈ rules.flatten, rule.isContextual = true)
        ∧ ∃ rule ∈ rules.flatten, rule.isContextual = false) ↔ Mixes definitions lookup := by
  cases free : obstacle? lookup positioning with
  | some construct =>
      refine iff_of_false ?_ fun mixes => ?_
      · rintro ⟨⟨rule, member, marked⟩, -⟩
        rw [isContextual_of_obstacle free written rule member] at marked
        cases marked
      · have writes := mixes.1
        simp [WritesRules, payload, free] at writes
  | none =>
      rw [exists_contextual_iff free written, exists_plain_iff payload free written, Mixes,
        ← Definitions.exists_isContextual_iff surrounded]
      constructor
      · rintro ⟨⟨_, someMarked⟩, writes, somePlain⟩
        exact ⟨writes, someMarked, somePlain⟩
      · rintro ⟨writes, ⟨context, given, kind⟩, somePlain⟩
        refine ⟨⟨?_, context, given, kind⟩, writes, somePlain⟩
        obtain ⟨part, _, result⟩ :=
          exists_of_mem_left (except_mapM_eq_ok_iff.mp written) given
        obtain ⟨inputs, sequences, _⟩ := (of_contextRules free result).2 kind
        simp only [WritesRules, payload] at writes
        obtain ⟨_, plain, resolved, filled⟩ := writes
        exact ⟨inputs, sequences, inputs_ne_nil free resolved sequences filled⟩

theorem ofOneType_of_isPair
    {rules : List Rule}
    (pairs : ∀ rule ∈ rules, rule.actsOnGlyphs → rule.isPair) :
    OfOneType rules := by
  refine .inr fun rule member acts => ?_
  have pair := pairs rule member acts
  cases rule <;> first | rfl | cases pair

/-- A lookup that positions pairs and nothing else does not mix rules. -/
theorem not_mixes_of_isPlainPairs
    {positioning : Positioning}
    {contexts : List RuleContext}
    (surrounded : definitions.ruleContexts lookup = .ok contexts)
    (plain : isPlainPairs contexts positioning) :
    ¬ Mixes definitions lookup := by
  rintro ⟨-, mixed⟩
  obtain ⟨⟨context, given, marked⟩, -⟩ :=
    (Definitions.exists_isContextual_iff surrounded).mpr mixed
  cases positioning with
  | pairs =>
      have everywhere := List.all_eq_true.mp plain context given
      simp [marked] at everywhere
  | singles | attach | cursive => cases plain

/-- The rules of a translated lookup are of one type unless it stands for a definition that mixes
rules, under its own name. -/
theorem Translates.ofOneType_iff
    {drafts : List CompiledLookup}
    {draft : CompiledLookup}
    (translated : Translates definitions options lookup drafts)
    (member : draft ∈ drafts) :
    OfOneType draft.rules ↔ ¬ (draft.sourceName = lookup.name ∧ Mixes definitions lookup) := by
  have acts := (translated.isDraft draft member).acts
  cases translated with
  | substitution flagged surrounded payload written =>
      cases List.mem_singleton.mp member
      rw [Rule.ofOneType_iff acts, mixes_iff_of_substitution surrounded payload written]
      simp [draftOf]
  | positioning flagged surrounded payload overlaps translated =>
      cases translated with
      | whole _ plain resolved =>
          cases List.mem_singleton.mp member
          refine iff_of_true ?_ fun mixed => not_mixes_of_isPlainPairs surrounded plain mixed.2
          exact ofOneType_of_isPair fun rule inside _ =>
            Definitions.isPair_of_pairRules resolved rule inside
      | cut _ plain resolved _ _ divided =>
          obtain ⟨number, rules, present, _, rfl⟩ := mem_pieceDrafts member
          refine iff_of_true ?_ fun mixed => not_mixes_of_isPlainPairs surrounded plain mixed.2
          exact ofOneType_of_isPair fun rule inside _ =>
            Definitions.isPair_of_pairRules resolved rule
              (mem_of_mem_pairPieces divided present inside)
      | contextual _ helped _ written =>
          rcases mem_helped_iff.mp member with ⟨needed, rfl⟩ | rfl
          · refine iff_of_true (.inr fun rule inside _ => ?_) ?_
            · exact (Definitions.plainForm_of_mem (helped needed) inside).isContextual
            · rintro ⟨same, -⟩
              exact pieceName_ne_helperName lookup.name 0 same.symm
          · rw [Rule.ofOneType_iff acts, mixes_iff_of_positioning surrounded payload written]
            simp [draftOf]

/-! ## Blocks -/

/-- A block for one lookup has rules of one type exactly if the lookup has. -/
theorem isUniform_block
    {lookup : CompiledLookup} :
    lookup.block.IsUniform ↔ OfOneType lookup.rules := by
  refine ofOneType_congr fun rule acts => ⟨fun member => ?_, List.mem_append_right _⟩
  rcases mem_rules_block member with ⟨text, rfl⟩ | rfl | own
  · cases acts
  · cases acts
  · exact own

/-- The compiled lookup has the name of the definition, which is compiled to it. -/
def IsOwn (definitions : Definitions) (options : Options) (labels : IdentifierPool)
    (lookup : LookupDefinition) (own : CompiledLookup) : Prop :=
  own.sourceName = lookup.name
    ∧ ∃ log compiled, compiledAlone definitions options labels lookup = ⟨log, .ok compiled⟩
        ∧ own ∈ compiled

/-- A lookup that has the name of its definition has rules of one type unless the definition mixes
them. -/
theorem IsOwn.ofOneType_iff
    {labels : IdentifierPool}
    {drafts : List CompiledLookup}
    {own : CompiledLookup}
    (isOwn : IsOwn definitions options labels lookup own)
    (translated : Translates definitions options lookup drafts) :
    OfOneType own.rules ↔ ¬ Mixes definitions lookup := by
  obtain ⟨named, _, compiled, result, member⟩ := isOwn
  obtain ⟨_, _, _, again⟩ := exists_compiledAlone_of_translates translated labels
  cases result.symm.trans again
  obtain ⟨draft, inside, rfl⟩ := List.mem_map.mp member
  rw [CompiledLookup.sourceName_relabel] at named
  rw [CompiledLookup.rules_relabel, ofOneType_map_relabel, translated.ofOneType_iff inside]
  simp [named]

end Compilation

open Compilation

/--
The rules of a block are of one type unless the block is that of a definition which mixes them:
with rules to write, it has a context that asks for nothing and another one that asks for
something.
-/
theorem convert_isUniform_iff
    {statements : List Statement}
    {glyphOrder : Option GlyphOrder}
    {options : Options}
    {log : List Notice}
    {document : Document}
    (converted : convert statements glyphOrder options = ⟨log, .ok document⟩) :
    ∃ definitions state,
      (Definitions.collect statements glyphOrder).result = .ok definitions
        ∧ (ofStatements definitions options statements).result = .ok state
        ∧ ∀ block ∈ document.lookups,
            block.IsUniform ↔
              ∀ lookup ∈ lookupsOf statements, ∀ own,
                IsOwn definitions options state.labels lookup own → own.block = block →
                  ¬ Mixes definitions lookup := by
  obtain ⟨_, definitions, _, state, _, merged, _, collected, compiled, mergedOk, _, lookups_eq,
    _⟩ := of_convert converted
  obtain ⟨translations, related, entered⟩ := entered_of_ofStatements compiled
  obtain ⟨_, again, pool, same, facts⟩ := merged_of_keysOwn (keysOwn_of_entered entered)
  cases mergedOk.symm.trans same
  refine ⟨definitions, state, by rw [collected], by rw [compiled], fun block listed => ?_⟩
  constructor
  · rintro uniform lookup defined own isOwn rfl
    obtain ⟨drafts, _, translated⟩ := exists_of_mem_left related defined
    exact (isOwn.ofOneType_iff translated).mp (isUniform_block.mp uniform)
  · intro apart
    rw [lookups_eq, facts.blocks_eq] at listed
    obtain ⟨group, inside, rfl⟩ := List.mem_map.mp listed
    match group with
    | [] => exact (ne_nil_of_mem_groups inside rfl).elim
    | [own] =>
        have present := mem_of_mem_groups inside (List.mem_singleton_self own)
        obtain ⟨draft, entry, rfl⟩ := entered.exists_draft present
        obtain ⟨drafts, listed, member⟩ := List.mem_flatten.mp entry
        obtain ⟨lookup, defined, translated⟩ := exists_of_mem_right related listed
        refine isUniform_block.mpr ?_
        rw [CompiledLookup.rules_relabel, ofOneType_map_relabel, translated.ofOneType_iff member]
        rintro ⟨named, mixes⟩
        obtain ⟨_, result⟩ := compiledAlone_of_translates translated fun draft inside =>
          entered.known draft (List.mem_flatten.mpr ⟨drafts, listed, inside⟩)
        refine apart lookup defined (draft.relabel state.labels.identifierOf) ?_ rfl mixes
        exact ⟨named, _, _, result, List.mem_map_of_mem member⟩
    | _ :: _ :: _ =>
        exact ofOneType_of_isPair
          (isPair_of_two_le_length (rulesAct_of_entered related entered) inside (by simp))

/-- A lookup that applies behind a glyph, and one that applies everywhere. -/
def behindAndEverywhere : List Statement :=
  [spacing "space", kerning "kern" [("A", "V")]]

theorem convert_isUniform_iff_behindAndEverywhere :
    ∃ log document, convert behindAndEverywhere none {} = ⟨log, .ok document⟩
      ∧ ∀ block ∈ document.lookups, block.IsUniform := by
  obtain ⟨log, document, converted⟩ : ∃ log document,
      convert behindAndEverywhere none {} = ⟨log, .ok document⟩ :=
    Outcome.exists_of_isOk (by decide +kernel)
  obtain ⟨definitions, state, _, _, uniform_iff⟩ := convert_isUniform_iff converted
  refine ⟨log, document, converted, fun block listed => (uniform_iff block listed).mpr ?_⟩
  rintro lookup defined _ _ _ ⟨_, _, context, given, -, nothing⟩
  have asks : ∀ lookup ∈ lookupsOf behindAndEverywhere, ∀ context ∈ lookup.contexts,
      [.glyph "x"] ∈ context.left ++ context.right := by
    simp [behindAndEverywhere, lookupsOf, spacing, kerning, lookupNamed]
  cases nothing _ (asks lookup defined context given)

/-- A lookup that applies everywhere, and behind a glyph as well. -/
def everywhereAndBehind : List Statement :=
  [lookupNamed "space" [⟨.within, [[]], []⟩, ⟨.within, [[.glyph "x"]], []⟩]
    (.positioning (.singles [([.glyph "A"], { advance := some 10 })]))]

/-- A context that asks for nothing makes a block with rules of both types. -/
theorem exists_not_isUniform :
    ¬ ∀ (statements : List Statement) (glyphOrder : Option GlyphOrder) (options : Options)
      (log : List Notice) (document : Document),
      convert statements glyphOrder options = ⟨log, .ok document⟩ →
        ∀ block ∈ document.lookups, block.IsUniform := by
  intro always
  obtain ⟨log, document, converted⟩ : ∃ log document,
      convert everywhereAndBehind none {} = ⟨log, .ok document⟩ :=
    Outcome.exists_of_isOk (by decide +kernel)
  have mixed : ((convert everywhereAndBehind none {}).result.toOption.map fun document =>
      decide (∀ block ∈ document.lookups, block.IsUniform)) = some false := by
    decide +kernel
  simp only [converted, Except.toOption, Option.map_some, Option.some.injEq,
    decide_eq_false_iff_not] at mixed
  exact mixed (always _ _ _ _ _ converted)

end GlyphLayout
