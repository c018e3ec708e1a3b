import GlyphLayout.Proofs.Compiling
import GlyphLayout.Proofs.CoverageFailures
import GlyphLayout.Proofs.Partition

/-!
# Cutting lookups

A limit on the size of a subtable never keeps a project from being compiled.  It changes the
translations in one way only: a pair positioning lookup that is not a piece itself may stand
there in pieces, which have the same rules in the same order.
-/

namespace GlyphLayout

open Feature (Rule)
open Source (Coverage Location LookupDefinition PairAdjustment Positioning Statement)

/-! ## Sizes of pairs -/

namespace Definitions

variable {definitions : Definitions} {location : Location}

/-- A coverage that is one reference can be expanded. -/
theorem exists_expand_of_resolveCollapsed
    {coverage : Coverage}
    {whole : Feature.Glyphs}
    (resolved : definitions.resolveCollapsed location coverage = .ok whole) :
    ∃ glyphs, definitions.expand location coverage = .ok glyphs := by
  obtain ⟨parts, each, _⟩ := resolveCollapsed_eq_ok_iff.mp resolved
  exact exists_expand_of_resolve ⟨parts, each⟩

/-- A pair that has a rule has a size. -/
theorem exists_pairSize
    {firsts seconds : List Coverage}
    {adjustment : PairAdjustment}
    {pair : PairRule}
    (written : definitions.pairRule location firsts seconds adjustment = .ok pair) :
    ∃ size, definitions.pairSize location pair = .ok size := by
  obtain ⟨first, second, _, _, _, firstResolved, secondResolved, rfl⟩ :=
    pairRule_eq_ok_iff.mp written
  obtain ⟨firstGlyphs, firstExpanded⟩ := exists_expand_of_resolveCollapsed firstResolved
  obtain ⟨secondGlyphs, secondExpanded⟩ := exists_expand_of_resolveCollapsed secondResolved
  unfold pairSize
  split
  · exact ⟨1, rfl⟩
  · refine ⟨firstGlyphs.length * secondGlyphs.length, ?_⟩
    simp only [glyphCount, firstExpanded, secondExpanded]
    rfl

end Definitions

namespace Compilation

variable {definitions : Definitions} {options : Options} {lookup : LookupDefinition}

/-- Pairs that have rules can be cut under any limit. -/
theorem exists_pairPieces
    {location : Location}
    {firsts seconds : List Coverage}
    {adjustments : List PairAdjustment}
    {pairs : List PairRule}
    (resolved : definitions.pairRules location firsts seconds adjustments = .ok pairs)
    (limit : Nat) :
    ∃ pieces, pairPieces definitions location limit pairs = .ok pieces := by
  have sized : ∀ pair ∈ pairs, ∃ value, (do
      return (pair.rule, ← definitions.pairSize location pair) :
        Except ConversionError (Rule × Nat)) = .ok value := by
    intro pair member
    obtain ⟨_, _, written⟩ := exists_of_mem_except_mapM resolved member
    obtain ⟨size, known⟩ := Definitions.exists_pairSize written
    exact ⟨(pair.rule, size), by rw [known]; rfl⟩
  obtain ⟨values, each⟩ := exists_except_mapM_of_forall sized
  exact ⟨_, except_bind_eq_ok_iff.mpr ⟨values, each, rfl⟩⟩

/-- No piece is empty. -/
theorem ne_nil_of_mem_pairPieces
    {location : Location}
    {limit : Nat}
    {pairs : List PairRule}
    {pieces : List (List Rule)}
    (divided : pairPieces definitions location limit pairs = .ok pieces) :
    ∀ piece ∈ pieces, piece ≠ [] := by
  obtain ⟨sized, _, result⟩ := except_bind_eq_ok_iff.mp divided
  cases result
  intro piece member
  obtain ⟨part, inside, rfl⟩ := List.mem_map.mp member
  rw [Ne, List.map_eq_nil_iff]
  exact ne_nil_of_mem_partition inside

/-! ## Translations under a limit -/

/-- What may stand for a draft under a limit: the draft itself, or pieces with its rules. -/
inductive Divides : CompiledLookup → List CompiledLookup → Prop
  | whole (draft : CompiledLookup) : Divides draft [draft]
  | pieces
      {draft : CompiledLookup} {pieces : List (List Rule)}
      (noPiece : draft.id.isPiece = false)
      (base : draft.id.base = draft.sourceName)
      (pairs : draft.kind = .pairs)
      (several : 2 ≤ pieces.length)
      (filled : ∀ rules ∈ pieces, rules ≠ [])
      (joined : pieces.flatten = draft.rules) :
      Divides draft (pieceDrafts draft 0 pieces)

theorem flatMap_rules_pieceDrafts
    (draft : CompiledLookup)
    (pieces : List (List Rule))
    (index : Nat) :
    (pieceDrafts draft index pieces).flatMap CompiledLookup.rules = pieces.flatten := by
  induction pieces generalizing index with
  | nil => rfl
  | cons rules _ ih =>
      rw [pieceDrafts, List.flatMap_cons, ih, List.flatten_cons]
      rfl

/-- Whatever stands for a draft has its rules. -/
theorem Divides.flatMap_rules
    {draft : CompiledLookup}
    {drafts : List CompiledLookup}
    (divides : Divides draft drafts) :
    drafts.flatMap CompiledLookup.rules = draft.rules := by
  cases divides with
  | whole => simp
  | pieces _ _ _ _ _ joined => rw [flatMap_rules_pieceDrafts, joined]

/-- The second list of drafts is the first one with some of them cut into pieces. -/
def Recut (drafts cut : List CompiledLookup) : Prop :=
  ∃ parts, List.Forall₂ Divides drafts parts ∧ cut = parts.flatten

theorem Recut.refl (drafts : List CompiledLookup) : Recut drafts drafts := by
  induction drafts with
  | nil => exact ⟨[], .nil, rfl⟩
  | cons draft _ ih =>
      obtain ⟨parts, divided, same⟩ := ih
      exact ⟨[draft] :: parts, .cons (.whole draft) divided, congrArg (List.cons draft) same⟩

theorem Recut.append
    {drafts cut more moreCut : List CompiledLookup}
    (first : Recut drafts cut)
    (second : Recut more moreCut) :
    Recut (drafts ++ more) (cut ++ moreCut) := by
  obtain ⟨parts, divided, rfl⟩ := first
  obtain ⟨others, othersDivided, rfl⟩ := second
  exact ⟨parts ++ others, List.rel_append divided othersDivided, List.flatten_append.symm⟩

theorem pieceDrafts_withRules
    (whole : CompiledLookup)
    (rules : List Rule)
    (index : Nat)
    (pieces : List (List Rule)) :
    pieceDrafts { whole with rules } index pieces = pieceDrafts whole index pieces := by
  induction pieces generalizing index with
  | nil => rfl
  | cons _ _ ih => exact congrArg₂ List.cons rfl (ih (index + 1))

theorem base_ofName {name : String} (noPiece : (LookupId.ofName name).isPiece = false) :
    (LookupId.ofName name).base = name := by
  unfold LookupId.ofName at noPiece ⊢
  split at noPiece
  · cases noPiece
  · rfl

theorem TranslatesPositioning.recut
    {positioning : Positioning}
    {contexts : List RuleContext}
    {draft : CompiledLookup}
    {drafts : List CompiledLookup}
    (base : draft.id.isPiece = false → draft.id.base = draft.sourceName)
    (translated : TranslatesPositioning definitions { options with pairLimit := none } lookup
      positioning contexts draft drafts)
    (limit : Nat) :
    ∃ cut,
      TranslatesPositioning definitions { options with pairLimit := some limit } lookup
          positioning contexts draft cut
        ∧ Recut drafts cut := by
  cases translated with
  | @whole firsts seconds adjustments pairs shape plain resolved _ =>
      subst shape
      obtain ⟨pieces, divided⟩ := exists_pairPieces resolved limit
      by_cases cutsUp : draft.id.isPiece = false ∧ 2 ≤ pieces.length
      · refine ⟨_, .cut rfl plain resolved rfl cutsUp.1 divided cutsUp.2, ?_⟩
        have joined := flatten_pairPieces divided
        have pieceEq := pieceDrafts_withRules { draft with kind := .pairs }
          (pairs.map PairRule.rule) 0 pieces
        rw [← pieceEq]
        have filled := ne_nil_of_mem_pairPieces divided
        exact ⟨[_], .cons (.pieces cutsUp.1 (base cutsUp.1) rfl cutsUp.2 filled joined) .nil,
          (List.append_nil _).symm⟩
      · refine ⟨_, .whole rfl plain resolved fun other same noPiece => ?_, .refl _⟩
        cases same
        exact ⟨pieces, divided, by simp only [noPiece, true_and] at cutsUp; omega⟩
  | cut _ _ _ limited => cases limited
  | contextual noPairs helped expressible written =>
      exact ⟨_, .contextual noPairs helped expressible written, .refl _⟩

theorem Translates.recut
    {drafts : List CompiledLookup}
    (translated : Translates definitions { options with pairLimit := none } lookup drafts)
    (limit : Nat) :
    ∃ cut,
      Translates definitions { options with pairLimit := some limit } lookup cut
        ∧ Recut drafts cut := by
  cases translated with
  | substitution flagged surrounded payload written =>
      exact ⟨_, .substitution flagged surrounded payload written, .refl _⟩
  | positioning flagged surrounded payload overlaps translated =>
      obtain ⟨cut, again, recut⟩ := translated.recut base_ofName limit
      exact ⟨cut, .positioning flagged surrounded payload overlaps again, recut⟩

/-- A project that is compiled without a limit is compiled under every limit. -/
theorem recut_of_related
    {lookups : List LookupDefinition}
    {translations : List (List CompiledLookup)}
    (related : List.Forall₂ (Translates definitions { options with pairLimit := none })
      lookups translations)
    (limit : Nat) :
    ∃ cuts,
      List.Forall₂ (Translates definitions { options with pairLimit := some limit })
          lookups cuts
        ∧ Recut translations.flatten cuts.flatten := by
  induction related with
  | nil => exact ⟨[], .nil, .refl []⟩
  | cons translated _ ih =>
      obtain ⟨cut, again, recut⟩ := translated.recut limit
      obtain ⟨cuts, rest, recuts⟩ := ih
      exact ⟨cut :: cuts, .cons again rest, recut.append recuts⟩

end Compilation
end GlyphLayout
