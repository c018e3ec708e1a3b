import GlyphLayout.Proofs.Outcome
import GlyphLayout.Lookup.Compilation

/-!
# Shapes of rules

The contexts of a lookup and the rules for each kind of lookup, read back: whether a context rules
the lookup out, which form a rule has, and which coverages, glyphs and anchors its parts come from.
-/

namespace GlyphLayout

/-- Some context, be it given or understood, does not rule the lookup out. -/
def Source.LookupDefinition.AppliesSomewhere (lookup : Source.LookupDefinition) : Prop :=
  lookup.contexts.length ≤ 1 ∨ ∃ context ∈ lookup.contexts, context.kind = .within

instance (lookup : Source.LookupDefinition) : Decidable lookup.AppliesSomewhere :=
  inferInstanceAs (Decidable (_ ∨ ∃ _ ∈ _, _))

namespace Definitions

open Feature (Glyphs Rule)
open Source (ContextDefinition Coverage Location LookupDefinition PairAdjustment Placement
  Positioning Substitution)

variable {definitions : Definitions} {location : Location}

/-! ## Contexts -/

/-- A context rules a lookup out if its definition does. -/
theorem ignored_of_ruleContext
    {lookup : LookupDefinition}
    {definition : ContextDefinition}
    {context : RuleContext}
    (resolved : definitions.ruleContext lookup definition = .ok context) :
    context.ignored = (definition.kind == .except) := by
  obtain ⟨_, _, resolved⟩ := except_bind_eq_ok_iff.mp resolved
  obtain ⟨_, _, result⟩ := except_bind_eq_ok_iff.mp resolved
  cases result
  rfl

/-- A lookup applies in some context exactly if its definition leaves one for it. -/
theorem appliesSomewhere_iff
    {lookup : LookupDefinition}
    {contexts : List RuleContext}
    (surrounded : definitions.ruleContexts lookup = .ok contexts) :
    lookup.AppliesSomewhere ↔ ∃ context ∈ contexts, context.ignored = false := by
  unfold ruleContexts at surrounded
  unfold LookupDefinition.AppliesSomewhere
  rcases given : lookup.contexts with _ | ⟨first, _ | ⟨second, rest⟩⟩ <;>
    simp only [given] at surrounded
  · cases surrounded
    simp
  · obtain ⟨context, _, result⟩ := except_bind_eq_ok_iff.mp surrounded
    cases result
    refine iff_of_true (.inl (Nat.le_refl 1)) ?_
    split
    · exact ⟨.elsewhere, by simp, rfl⟩
    · rename_i admitted
      exact ⟨context, List.mem_singleton_self _, Bool.eq_false_iff.mpr admitted⟩
  · have many : ¬ (first :: second :: rest).length ≤ 1 := by simp
    rw [or_iff_right many]
    constructor
    · rintro ⟨definition, listed, within⟩
      obtain ⟨context, present, resolved⟩ :=
        exists_of_mem_left (except_mapM_eq_ok_iff.mp surrounded) listed
      exact ⟨context, present, by rw [ignored_of_ruleContext resolved, within]; rfl⟩
    · rintro ⟨context, present, applied⟩
      obtain ⟨definition, listed, resolved⟩ := exists_of_mem_except_mapM surrounded present
      refine ⟨definition, listed, ?_⟩
      rw [ignored_of_ruleContext resolved] at applied
      cases kind : definition.kind with
      | within => rfl
      | except => simp [kind] at applied

/-! ## Rules -/

/-- The item stands at an index of a list, where the first item has the index one. -/
def StandsAt {α : Type} (items : List α) (index : UInt16) (item : α) : Prop :=
  1 ≤ index.toNat ∧ index.toNat ≤ items.length ∧ items[index.toNat - 1]? = some item

theorem nthFromOne?_eq_some_iff {α : Type} {items : List α} {index : UInt16} {item : α} :
    nthFromOne? items index = some item ↔ StandsAt items index item := by
  unfold nthFromOne? StandsAt
  split
  · rename_i zero
    simp [zero]
  · rename_i positive
    have first : 1 ≤ index.toNat := Nat.pos_of_ne_zero fun zero =>
      positive (UInt16.toNat_inj.mp zero)
    refine ⟨fun found => ⟨first, ?_, found⟩, fun stands => stands.2.2⟩
    have inside := (List.getElem?_eq_some_iff.mp found).1
    omega

/-- The coverages of a pair stand at its indices. -/
theorem pairCoverages_eq_ok_iff
    {firsts seconds : List Coverage}
    {adjustment : PairAdjustment}
    {first second : Coverage} :
    pairCoverages location firsts seconds adjustment = .ok (first, second) ↔
      StandsAt firsts adjustment.first first ∧ StandsAt seconds adjustment.second second := by
  rw [← nthFromOne?_eq_some_iff, ← nthFromOne?_eq_some_iff]
  unfold pairCoverages
  split
  · rename_i firstGiven secondGiven
    rw [firstGiven, secondGiven, Except.ok.injEq, Prod.mk.injEq, Option.some.injEq,
      Option.some.injEq]
  · rename_i missing
    exact ⟨nofun, fun both => (missing first second both.1 both.2).elim⟩

/-- The coverages of a pair are coverages of the two sides. -/
theorem mem_of_pairCoverages
    {firsts seconds : List Coverage}
    {adjustment : PairAdjustment}
    {first second : Coverage}
    (found : pairCoverages location firsts seconds adjustment = .ok (first, second)) :
    first ∈ firsts ∧ second ∈ seconds := by
  obtain ⟨⟨_, _, firstGiven⟩, ⟨_, _, secondGiven⟩⟩ := pairCoverages_eq_ok_iff.mp found
  exact ⟨List.mem_of_getElem? firstGiven, List.mem_of_getElem? secondGiven⟩

/-- One reference for a coverage collapses the references for its items. -/
theorem resolveCollapsed_eq_ok_iff {coverage : Coverage} {whole : Glyphs} :
    definitions.resolveCollapsed location coverage = .ok whole ↔
      ∃ parts, definitions.resolve location coverage = .ok parts ∧ whole = .collapse parts := by
  refine except_bind_eq_ok_iff.trans (exists_congr fun parts => and_congr_right fun _ => ?_)
  exact ⟨fun result => (Except.ok.inj result).symm, fun same => same ▸ rfl⟩

/-- The rule for a pair remembers the two coverages of the pair, and has each as one reference. -/
theorem pairRule_eq_ok_iff
    {firsts seconds : List Coverage}
    {adjustment : PairAdjustment}
    {pair : PairRule} :
    definitions.pairRule location firsts seconds adjustment = .ok pair ↔
      ∃ first second firstGlyphs secondGlyphs,
        pairCoverages location firsts seconds adjustment = .ok (first, second)
          ∧ definitions.resolveCollapsed location first = .ok firstGlyphs
          ∧ definitions.resolveCollapsed location second = .ok secondGlyphs
          ∧ pair = ⟨first, second, .pair ((first ++ second).any fun item => !item.isGroup)
              firstGlyphs (.ofPlacement adjustment.firstPlacement)
              secondGlyphs (.ofPlacement adjustment.secondPlacement)⟩ := by
  constructor
  · intro written
    obtain ⟨⟨first, second⟩, found, written⟩ := except_bind_eq_ok_iff.mp written
    obtain ⟨firstGlyphs, firstResolved, written⟩ := except_bind_eq_ok_iff.mp written
    obtain ⟨secondGlyphs, secondResolved, written⟩ := except_bind_eq_ok_iff.mp written
    cases written
    exact ⟨first, second, firstGlyphs, secondGlyphs, found, firstResolved, secondResolved, rfl⟩
  · rintro ⟨first, second, firstGlyphs, secondGlyphs, found, firstResolved, secondResolved, rfl⟩
    exact except_bind_eq_ok_iff.mpr ⟨_, found,
      except_bind_eq_ok_iff.mpr ⟨_, firstResolved,
        except_bind_eq_ok_iff.mpr ⟨_, secondResolved, rfl⟩⟩⟩

/-- A rule for a pair remembers coverages of the two sides. -/
theorem coverages_of_pairRule
    {firsts seconds : List Coverage}
    {adjustment : PairAdjustment}
    {pair : PairRule}
    (resolved : definitions.pairRule location firsts seconds adjustment = .ok pair) :
    pair.first ∈ firsts ∧ pair.second ∈ seconds := by
  obtain ⟨_, _, _, _, found, _, _, rfl⟩ := pairRule_eq_ok_iff.mp resolved
  exact mem_of_pairCoverages found

/-- The rule for a pair has the two coverages of the pair, each as one reference. -/
theorem exists_of_mem_pairRules
    {firsts seconds : List Coverage}
    {adjustments : List PairAdjustment}
    {pairs : List PairRule}
    {rule : Rule}
    (resolved : definitions.pairRules location firsts seconds adjustments = .ok pairs)
    (member : rule ∈ pairs.map PairRule.rule) :
    ∃ adjustment ∈ adjustments, ∃ first second firstGlyphs secondGlyphs enumerated,
      pairCoverages location firsts seconds adjustment = .ok (first, second)
        ∧ definitions.resolveCollapsed location first = .ok firstGlyphs
        ∧ definitions.resolveCollapsed location second = .ok secondGlyphs
        ∧ rule = .pair enumerated firstGlyphs (.ofPlacement adjustment.firstPlacement)
            secondGlyphs (.ofPlacement adjustment.secondPlacement) := by
  obtain ⟨pair, present, rfl⟩ := List.mem_map.mp member
  obtain ⟨adjustment, listed, written⟩ := exists_of_mem_except_mapM resolved present
  obtain ⟨first, second, firstGlyphs, secondGlyphs, found, firstResolved, secondResolved, rfl⟩ :=
    pairRule_eq_ok_iff.mp written
  exact ⟨adjustment, listed, first, second, firstGlyphs, secondGlyphs, _, found, firstResolved,
    secondResolved, rfl⟩

/-- The rule for a base has the anchors for the classes, in the form for the kind of the glyph. -/
theorem exists_of_attachmentRule
    {classes : List String}
    {glyph : String}
    {rule : Rule}
    (written : definitions.attachmentRule location classes glyph = .ok rule) :
    ∃ anchors, classes.mapM (definitions.anchorsForClass location glyph) = .ok anchors
      ∧ ((definitions.isMark glyph = true
          ∧ rule = .markToMark (.glyph (definitions.outputName glyph)) (attachmentsAt anchors 0))
        ∨ (definitions.isMark glyph = false
          ∧ ∃ count, definitions.ligatureComponents? glyph = some count
            ∧ rule = .markToLigature (.glyph (definitions.outputName glyph))
                ((List.range count.toNat).map (attachmentsAt anchors)))
        ∨ (definitions.isMark glyph = false
          ∧ definitions.ligatureComponents? glyph = none
          ∧ rule = .markToBase (.glyph (definitions.outputName glyph))
              (attachmentsAt anchors 0))) := by
  obtain ⟨anchors, found, shape⟩ := except_bind_eq_ok_iff.mp written
  refine ⟨anchors, found, ?_⟩
  dsimp only at shape
  split at shape
  · rename_i mark
    cases shape
    exact .inl ⟨mark, rfl⟩
  · rename_i noMark
    rw [Bool.not_eq_true] at noMark
    split at shape
    · rename_i count ligature
      cases shape
      exact .inr (.inl ⟨noMark, count, ligature, rfl⟩)
    · rename_i noLigature
      cases shape
      exact .inr (.inr ⟨noMark, noLigature, rfl⟩)

/-- The rule for a base has the anchors of the base, for each class once. -/
theorem exists_of_mem_attachmentRules
    {bases : Coverage}
    {classes : List String}
    {rules : List Rule}
    {rule : Rule}
    (resolved : definitions.attachmentRules location bases classes = .ok rules)
    (member : rule ∈ rules) :
    ∃ glyphs glyph anchors, definitions.expand location bases = .ok glyphs
      ∧ glyph ∈ glyphs
      ∧ classes.eraseDups.mapM (definitions.anchorsForClass location glyph) = .ok anchors
        ∧ (rule = .markToMark (.glyph (definitions.outputName glyph)) (attachmentsAt anchors 0)
          ∨ (∃ count, rule = .markToLigature (.glyph (definitions.outputName glyph))
              ((List.range count).map (attachmentsAt anchors)))
          ∨ rule = .markToBase (.glyph (definitions.outputName glyph))
              (attachmentsAt anchors 0)) := by
  obtain ⟨glyphs, expanded, result⟩ := except_bind_eq_ok_iff.mp resolved
  split at result
  · cases result
    cases member
  · obtain ⟨glyph, present, written⟩ := exists_of_mem_except_mapM result member
    obtain ⟨anchors, found, shape⟩ := exists_of_attachmentRule written
    refine ⟨glyphs, glyph, anchors, expanded, List.mem_eraseDups.mp present, found, ?_⟩
    rcases shape with ⟨_, same⟩ | ⟨_, count, _, same⟩ | ⟨_, _, same⟩
    · exact .inl same
    · exact .inr (.inl ⟨_, same⟩)
    · exact .inr (.inr same)

/-- The exits that no entry has used have a rule each. -/
theorem forall₂_of_joinRules_nil
    {exits : List String}
    {rules : List Rule}
    (written : definitions.joinRules location [] exits = .ok rules) :
    List.Forall₂ (fun glyph rule => ∃ point,
      definitions.joinAnchor location glyph "exit" = .ok point
        ∧ rule = .cursive (.glyph (definitions.outputName glyph)) none (some point))
      exits rules := by
  refine (except_mapM_eq_ok_iff.mp written).imp fun glyph rule result => ?_
  obtain ⟨point, found, shape⟩ := except_bind_eq_ok_iff.mp result
  cases shape
  exact ⟨point, found, rfl⟩

/-- An entry has a rule, which uses up an exit of its glyph if there is one. -/
theorem exists_of_joinRules_cons
    {glyph : String}
    {entries exits : List String}
    {rules : List Rule}
    (written : definitions.joinRules location (glyph :: entries) exits = .ok rules) :
    ∃ entry exit rest, definitions.joinRules location entries (exits.erase glyph) = .ok rest
      ∧ rules = .cursive (.glyph (definitions.outputName glyph)) (some entry) exit :: rest
      ∧ definitions.joinAnchor location glyph "entry" = .ok entry
      ∧ (∀ point ∈ exit, definitions.joinAnchor location glyph "exit" = .ok point)
      ∧ (exit.isSome ↔ glyph ∈ exits) := by
  obtain ⟨entry, entered, written⟩ := except_bind_eq_ok_iff.mp written
  dsimp only at written
  split at written
  · rename_i listed
    obtain ⟨exit, left, written⟩ := except_bind_eq_ok_iff.mp written
    obtain ⟨rest, tail, result⟩ := except_bind_eq_ok_iff.mp written
    cases result
    obtain ⟨point, found, rfl⟩ : ∃ point,
        definitions.joinAnchor location glyph "exit" = .ok point ∧ some point = exit := by
      cases result : definitions.joinAnchor location glyph "exit" with
      | error error => simp [result] at left
      | ok point => exact ⟨point, rfl, by simpa [result] using left⟩
    refine ⟨entry, some point, rest, tail, rfl, entered, ?_, ?_⟩
    · rintro _ ⟨⟩
      exact found
    · exact iff_of_true rfl (by simpa using listed)
  · rename_i unlisted
    obtain ⟨_, ⟨⟩, written⟩ := except_bind_eq_ok_iff.mp written
    obtain ⟨rest, tail, result⟩ := except_bind_eq_ok_iff.mp written
    cases result
    exact ⟨entry, none, rest, tail, rfl, entered, nofun,
      iff_of_false Bool.false_ne_true (by simpa using unlisted)⟩

/-- The rules that join glyphs have one glyph each. -/
theorem exists_of_mem_joinRules
    {entries exits : List String}
    {rules : List Rule}
    {rule : Rule}
    (resolved : definitions.joinRules location entries exits = .ok rules)
    (member : rule ∈ rules) :
    ∃ glyph entry exit, (glyph ∈ entries ∨ glyph ∈ exits)
      ∧ rule = .cursive (.glyph (definitions.outputName glyph)) entry exit := by
  induction entries generalizing exits rules with
  | nil =>
      obtain ⟨glyph, present, point, _, shape⟩ :=
        exists_of_mem_right (forall₂_of_joinRules_nil resolved) member
      exact ⟨glyph, none, some point, .inr present, shape⟩
  | cons glyph entries ih =>
      obtain ⟨entry, exit, rest, tail, rfl, _⟩ := exists_of_joinRules_cons resolved
      rcases List.mem_cons.mp member with rfl | inside
      · exact ⟨glyph, some entry, exit, .inl (List.mem_cons_self ..), rfl⟩
      · obtain ⟨other, entry, exit, place, shape⟩ := ih tail inside
        exact ⟨other, entry, exit,
          place.imp (List.mem_cons_of_mem _) (fun left => List.mem_of_mem_erase left), shape⟩

/-- The form of a rule that replaces an input by an output. -/
inductive SubstitutionForm (context : Feature.Context) : List Glyphs → List Glyphs → Rule → Prop
  | single (target replacement : Glyphs) :
      SubstitutionForm context [target] [replacement] (.singleSub context target replacement)
  | reverse (target replacement : Glyphs) :
      SubstitutionForm context [target] [replacement] (.reverseSub context target replacement)
  | multiple (target : Glyphs) (replacement : List Glyphs) :
      SubstitutionForm context [target] replacement (.multipleSub context target replacement)
  | ligature (components : List Glyphs) (replacement : Glyphs) :
      SubstitutionForm context components [replacement]
        (.ligatureSub context components replacement)

theorem substitutionForm_of_substitutionRule
    {kind : Source.SubstitutionKind}
    {context : Feature.Context}
    {input output : List Glyphs}
    {rule : Rule}
    (shaped : substitutionRule kind context input output = some rule) :
    SubstitutionForm context input output rule := by
  unfold substitutionRule at shaped
  split at shaped <;> cases shaped <;> constructor

/-- How a mapping of a substitution is written in a context. -/
inductive MapsTo (definitions : Definitions) (kind : Source.SubstitutionKind)
    (context : RuleContext) (mapping : Source.Mapping) : Option Rule → Prop
  | blank
      (empty : ¬ (mapping.input ≠ [] ∧ mapping.output ≠ [])) :
      MapsTo definitions kind context mapping none
  | ignored
      {input : List Glyphs}
      (filled : mapping.input ≠ [] ∧ mapping.output ≠ [])
      (ruledOut : context.ignored = true)
      (inputResolved : definitions.resolve mapping.location mapping.input = .ok input) :
      MapsTo definitions kind context mapping (some (.ignoreSub context.context input))
  | written
      {input output : List Glyphs} {rule : Rule}
      (filled : mapping.input ≠ [] ∧ mapping.output ≠ [])
      (applies : context.ignored = false)
      (inputResolved : definitions.resolve mapping.location mapping.input = .ok input)
      (outputResolved : definitions.resolve mapping.location mapping.output = .ok output)
      (shaped : substitutionRule kind context.context input output = some rule) :
      MapsTo definitions kind context mapping (some rule)

theorem mapsTo_of_mappingRule
    {kind : Source.SubstitutionKind}
    {context : RuleContext}
    {mapping : Source.Mapping}
    {log : List Notice}
    {written : Option Rule}
    (mapped : definitions.mappingRule kind context mapping = ⟨log, .ok written⟩) :
    MapsTo definitions kind context mapping written := by
  unfold mappingRule at mapped
  split at mapped
  · rename_i blank
    obtain ⟨_, _, _, _, result, _⟩ := Outcome.bind_eq_ok_iff.mp mapped
    cases result
    refine .blank fun filled => ?_
    simp [filled.1, filled.2] at blank
  · rename_i filled
    have filled : mapping.input ≠ [] ∧ mapping.output ≠ [] := by simpa using filled
    obtain ⟨input, inputResolved, mapped⟩ := Outcome.liftM_bind_eq_ok_iff.mp mapped
    split at mapped
    · rename_i ruledOut
      cases mapped
      exact .ignored filled ruledOut inputResolved
    · rename_i applies
      obtain ⟨output, outputResolved, mapped⟩ := Outcome.liftM_bind_eq_ok_iff.mp mapped
      split at mapped
      · rename_i shaped
        cases mapped
        exact .written filled (Bool.eq_false_iff.mpr applies) inputResolved outputResolved shaped
      · cases mapped

/-- The rule for a mapping has its input and, unless its context is ruled out, its output. -/
theorem exists_of_mem_substitutionRules
    {substitution : Substitution}
    {context : RuleContext}
    {log : List Notice}
    {rules : List Rule}
    {rule : Rule}
    (written : definitions.substitutionRules substitution context = ⟨log, .ok rules⟩)
    (member : rule ∈ rules) :
    ∃ mapping ∈ substitution.mappings, ∃ input,
      definitions.resolve mapping.location mapping.input = .ok input
        ∧ (rule = .ignoreSub context.context input
          ∨ ∃ output, definitions.resolve mapping.location mapping.output = .ok output
              ∧ substitutionRule substitution.kind context.context input output = some rule) := by
  obtain ⟨_, found, _, traversed, result, _⟩ := Outcome.bind_eq_ok_iff.mp written
  cases result
  obtain ⟨_, present, rfl⟩ := List.mem_filterMap.mp member
  obtain ⟨mapping, listed, _, mapped⟩ := Outcome.exists_of_mem_mapM traversed present
  cases mapsTo_of_mappingRule mapped with
  | ignored _ _ inputResolved => exact ⟨mapping, listed, _, inputResolved, .inl rfl⟩
  | written _ _ inputResolved outputResolved shaped =>
      exact ⟨mapping, listed, _, inputResolved, .inr ⟨_, outputResolved, shaped⟩⟩

/-- The form of a plain rule, with what its parts are resolved from. -/
inductive PlainForm (definitions : Definitions) (location : Location) :
    Positioning → Rule → Prop
  | pair
      {firsts seconds : List Coverage} {adjustments : List PairAdjustment}
      {adjustment : PairAdjustment} {first second : Coverage}
      {firstGlyphs secondGlyphs : Glyphs} {enumerated : Bool}
      (listed : adjustment ∈ adjustments)
      (found : pairCoverages location firsts seconds adjustment = .ok (first, second))
      (firstResolved : definitions.resolveCollapsed location first = .ok firstGlyphs)
      (secondResolved : definitions.resolveCollapsed location second = .ok secondGlyphs) :
      PlainForm definitions location (.pairs firsts seconds adjustments)
        (.pair enumerated firstGlyphs (.ofPlacement adjustment.firstPlacement)
          secondGlyphs (.ofPlacement adjustment.secondPlacement))
  | single
      {adjustments : List (Coverage × Placement)} {coverage : Coverage} {placement : Placement}
      {target : Glyphs}
      (listed : (coverage, placement) ∈ adjustments)
      (resolved : definitions.resolveCollapsed location coverage = .ok target) :
      PlainForm definitions location (.singles adjustments)
        (.single target (.ofPlacement placement))
  | attachment
      {bases : Coverage} {marks : List (Coverage × String)} {glyphs : List String}
      {glyph : String} {anchors : List (SortedMap UInt16 Feature.Anchor × String)} {rule : Rule}
      (expanded : definitions.expand location bases = .ok glyphs)
      (present : glyph ∈ glyphs)
      (anchored : (marks.map Prod.snd).eraseDups.mapM
        (definitions.anchorsForClass location glyph) = .ok anchors)
      (shape : rule = .markToMark (.glyph (definitions.outputName glyph)) (attachmentsAt anchors 0)
        ∨ (∃ count, rule = .markToLigature (.glyph (definitions.outputName glyph))
            ((List.range count).map (attachmentsAt anchors)))
        ∨ rule = .markToBase (.glyph (definitions.outputName glyph)) (attachmentsAt anchors 0)) :
      PlainForm definitions location (.attach bases marks) rule
  | join
      {exits entries : List Coverage} {coverage : Coverage} {glyphs : List String}
      {glyph : String} {entry exit : Option Feature.Anchor}
      (listed : coverage ∈ exits ++ entries)
      (expanded : definitions.expand location coverage = .ok glyphs)
      (present : glyph ∈ glyphs) :
      PlainForm definitions location (.cursive exits entries)
        (.cursive (.glyph (definitions.outputName glyph)) entry exit)

/-- A glyph of some coverages is one of the glyphs that a coverage expands to. -/
theorem exists_expand_of_mem_flatten
    {coverages : List Coverage}
    {parts : List (List String)}
    {glyph : String}
    (expanded : coverages.mapM (definitions.expand location) = .ok parts)
    (member : glyph ∈ parts.flatten) :
    ∃ coverage ∈ coverages, ∃ glyphs,
      definitions.expand location coverage = .ok glyphs ∧ glyph ∈ glyphs := by
  obtain ⟨glyphs, present, inside⟩ := List.mem_flatten.mp member
  obtain ⟨coverage, listed, found⟩ := exists_of_mem_except_mapM expanded present
  exact ⟨coverage, listed, glyphs, found, inside⟩

/-- Every plain rule of a positioning has one of the forms. -/
theorem plainForm_of_mem
    {positioning : Positioning}
    {plain : PlainRules}
    {rule : Rule}
    (resolved : definitions.plainRules location positioning = .ok plain)
    (member : rule ∈ plain.rules) :
    PlainForm definitions location positioning rule := by
  cases positioning with
  | pairs firsts seconds adjustments =>
      obtain ⟨pairs, each, result⟩ := except_bind_eq_ok_iff.mp resolved
      cases result
      obtain ⟨_, listed, _, _, _, _, _, found, first, second, rfl⟩ :=
        exists_of_mem_pairRules each member
      exact .pair listed found first second
  | singles adjustments =>
      obtain ⟨rules, each, result⟩ := except_bind_eq_ok_iff.mp resolved
      cases result
      obtain ⟨_, listed, written⟩ := exists_of_mem_except_mapM each member
      obtain ⟨_, collapsed, shape⟩ := except_bind_eq_ok_iff.mp written
      cases shape
      exact .single listed collapsed
  | attach bases marks =>
      obtain ⟨_, _, result⟩ := except_bind_eq_ok_iff.mp resolved
      obtain ⟨rules, each, result⟩ := except_bind_eq_ok_iff.mp result
      cases result
      obtain ⟨_, _, _, expanded, present, anchored, shape⟩ :=
        exists_of_mem_attachmentRules each member
      exact .attachment expanded present anchored shape
  | cursive exits entries =>
      obtain ⟨rules, each, result⟩ := except_bind_eq_ok_iff.mp resolved
      cases result
      obtain ⟨_, entriesExpanded, joined⟩ := except_bind_eq_ok_iff.mp each
      obtain ⟨_, exitsExpanded, joined⟩ := except_bind_eq_ok_iff.mp joined
      obtain ⟨glyph, _, _, place, rfl⟩ := exists_of_mem_joinRules joined member
      rcases place with inEntries | inExits
      · obtain ⟨_, listed, _, expanded, present⟩ :=
          exists_expand_of_mem_flatten entriesExpanded inEntries
        exact .join (List.mem_append_right _ listed) expanded present
      · obtain ⟨_, listed, _, expanded, present⟩ :=
          exists_expand_of_mem_flatten exitsExpanded inExits
        exact .join (List.mem_append_left _ listed) expanded present

end Definitions
end GlyphLayout
