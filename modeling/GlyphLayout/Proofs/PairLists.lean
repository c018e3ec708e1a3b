import GlyphLayout.Proofs.Cutting

/-!
# Lists of pairs

A pair positioning lookup outside any context is compiled to one lookup, or to several pieces under
a limit.  Either way its pairs have one rule each, in their order, and nothing but an index outside
the lists or a coverage that cannot be resolved keeps it from being compiled.
-/

namespace GlyphLayout

open Feature (Rule Value)
open Source (Coverage CoverageItem Location PairAdjustment Placement)

/-! ## Pairs and their rules -/

/-- The value moves a glyph and changes its advance as the placement says, and corrects each of
these numbers as the placement does. -/
structure Feature.Value.HasPlacement (value : Value) (placement : Placement) : Prop where
  x_eq : value.x = placement.dx
  y_eq : value.y = placement.dy
  advance_eq : value.advance = placement.advance
  xDevices_eq : value.xDevices = placement.xDevices
  yDevices_eq : value.yDevices = placement.yDevices
  advanceDevices_eq : value.advanceDevices = placement.advanceDevices

theorem Feature.Value.hasPlacement_ofPlacement (placement : Placement) :
    (Value.ofPlacement placement).HasPlacement placement :=
  ⟨rfl, rfl, rfl, rfl, rfl, rfl⟩

namespace Definitions

variable {definitions : Definitions} {location : Location} {firsts seconds : List Coverage}
  {adjustments : List PairAdjustment} {adjustment : PairAdjustment}

/-- The indices of the pair lie inside the two lists, and the coverages there can be resolved. -/
def CanPlace (definitions : Definitions) (location : Location) (firsts seconds : List Coverage)
    (adjustment : PairAdjustment) : Prop :=
  ∃ first second, StandsAt firsts adjustment.first first
    ∧ StandsAt seconds adjustment.second second
    ∧ (∃ parts, definitions.resolve location first = .ok parts)
    ∧ ∃ parts, definitions.resolve location second = .ok parts

/-- The rule has the two coverages that stand at the indices of the pair, with the values of the
pair.  It stands for each pair of glyphs if some item of the coverages is no group. -/
def PlacesPair (definitions : Definitions) (location : Location) (firsts seconds : List Coverage)
    (adjustment : PairAdjustment) (rule : Rule) : Prop :=
  ∃ first second firstParts secondParts firstValue secondValue enumerated,
    StandsAt firsts adjustment.first first
      ∧ StandsAt seconds adjustment.second second
      ∧ definitions.resolve location first = .ok firstParts
      ∧ definitions.resolve location second = .ok secondParts
      ∧ Value.HasPlacement firstValue adjustment.firstPlacement
      ∧ Value.HasPlacement secondValue adjustment.secondPlacement
      ∧ (enumerated = true ↔ ∃ item ∈ first ++ second, ∀ name, item ≠ .group name)
      ∧ rule =
          .pair enumerated (.collapse firstParts) firstValue (.collapse secondParts) secondValue

theorem isGroup_eq_false_iff {item : CoverageItem} :
    item.isGroup = false ↔ ∀ name, item ≠ .group name := by
  cases item <;> simp [CoverageItem.isGroup]

theorem exists_pairRule_iff :
    (∃ pair, definitions.pairRule location firsts seconds adjustment = .ok pair) ↔
      definitions.CanPlace location firsts seconds adjustment := by
  simp only [pairRule_eq_ok_iff, pairCoverages_eq_ok_iff, resolveCollapsed_eq_ok_iff]
  constructor
  · rintro ⟨_, first, second, _, _, ⟨firstStands, secondStands⟩, ⟨firstParts, firstResolved, _⟩,
      ⟨secondParts, secondResolved, _⟩, _⟩
    exact ⟨first, second, firstStands, secondStands, ⟨firstParts, firstResolved⟩,
      ⟨secondParts, secondResolved⟩⟩
  · rintro ⟨first, second, firstStands, secondStands, ⟨firstParts, firstResolved⟩,
      ⟨secondParts, secondResolved⟩⟩
    exact ⟨_, first, second, _, _, ⟨firstStands, secondStands⟩, ⟨firstParts, firstResolved, rfl⟩,
      ⟨secondParts, secondResolved, rfl⟩, rfl⟩

/-- Some pairs have rules exactly if each of them can be placed. -/
theorem exists_pairRules_iff :
    (∃ pairs, definitions.pairRules location firsts seconds adjustments = .ok pairs) ↔
      ∀ adjustment ∈ adjustments, definitions.CanPlace location firsts seconds adjustment := by
  simp only [pairRules, exists_except_mapM_iff, exists_pairRule_iff]

theorem placesPair_of_pairRule
    {pair : PairRule}
    (written : definitions.pairRule location firsts seconds adjustment = .ok pair) :
    definitions.PlacesPair location firsts seconds adjustment pair.rule := by
  obtain ⟨first, second, _, _, found, firstCollapsed, secondCollapsed, rfl⟩ :=
    pairRule_eq_ok_iff.mp written
  obtain ⟨firstStands, secondStands⟩ := pairCoverages_eq_ok_iff.mp found
  obtain ⟨firstParts, firstResolved, rfl⟩ := resolveCollapsed_eq_ok_iff.mp firstCollapsed
  obtain ⟨secondParts, secondResolved, rfl⟩ := resolveCollapsed_eq_ok_iff.mp secondCollapsed
  refine ⟨first, second, firstParts, secondParts, _, _, _, firstStands, secondStands, firstResolved,
    secondResolved, Value.hasPlacement_ofPlacement _, Value.hasPlacement_ofPlacement _, ?_, rfl⟩
  simp only [List.any_eq_true, Bool.not_eq_true', isGroup_eq_false_iff]

/-- Each pair has one rule, in the order of the pairs. -/
theorem placesPair_of_pairRules
    {pairs : List PairRule}
    (resolved : definitions.pairRules location firsts seconds adjustments = .ok pairs) :
    List.Forall₂ (definitions.PlacesPair location firsts seconds) adjustments
      (pairs.map PairRule.rule) :=
  List.forall₂_map_right_iff.mpr
    ((except_mapM_eq_ok_iff.mp resolved).imp fun _ _ => placesPair_of_pairRule)

end Definitions

/-! ## Lookups in a row -/

namespace Compilation

variable {definitions : Definitions} {options : Options} {location : Location}
  {firsts seconds : List Coverage} {adjustments : List PairAdjustment}

/-- Lookups can always be added, one after the other. -/
theorem exists_foldlM_register (built : List CompiledLookup) (state : Compilation) :
    ∃ log, built.foldlM register state =
      ⟨log, .ok { state with lookups := enter state.lookups built }⟩ := by
  induction built generalizing state with
  | nil => exact ⟨[], rfl⟩
  | cons lookup built ih =>
      obtain ⟨log, rest⟩ := ih { state with lookups := state.lookups.insert lookup.key lookup }
      rw [List.foldlM_cons, register_eq]
      exact ⟨_, Outcome.bind_eq_ok_iff.mpr ⟨_, _, log, rfl, rest, rfl⟩⟩

/-- The lookup is a piece of another one, at an index that counts from zero. -/
structure IsNumberedPiece (whole : CompiledLookup) (index : Nat) (piece : CompiledLookup) :
    Prop where
  /-- The pieces are numbered from one on. -/
  id_eq : piece.id = ⟨whole.sourceName, some (UInt32.ofNat (index + 1))⟩
  sourceName_eq : piece.sourceName = LookupId.pieceName whole.sourceName index
  kind_eq : piece.kind = whole.kind
  flags_eq : piece.flags = whole.flags
  useExtension_eq : piece.useExtension = whole.useExtension
  /-- Only the first piece has the comments. -/
  comments_eq : piece.comments = if index = 0 then whole.comments else none

/-- The pool has no part in what a lookup is entered under. -/
theorem register_bind_congr
    {state : Compilation}
    {lookup : CompiledLookup}
    {labels others : IdentifierPool}
    {next later : Compilation → Outcome Compilation}
    (same : next { state with labels, lookups := state.lookups.insert lookup.key lookup } =
      later { state with labels := others, lookups := state.lookups.insert lookup.key lookup }) :
    { state with labels }.register lookup >>= next =
      { state with labels := others }.register lookup >>= later := by
  rw [register_eq, register_eq, Outcome.bind_ok, Outcome.bind_ok, same]

/-- The first of some pieces is added, and then the others are. -/
theorem exists_of_addPieces_cons
    (whole : CompiledLookup)
    (state : Compilation)
    (index : Nat)
    (rules : List Rule)
    (pieces : List (List Rule)) :
    ∃ (label : String) (labels : IdentifierPool),
      addPieces whole state index (rules :: pieces) =
        { state with labels }.register { pieceDraft whole index rules with label } >>=
          fun next => addPieces whole next (index + 1) pieces :=
  ⟨_, _, rfl⟩

/-- Adding pieces is adding lookups one after the other, once their labels are known. -/
theorem exists_of_addPieces
    (whole : CompiledLookup)
    (pieces : List (List Rule))
    (state : Compilation)
    (index : Nat) :
    ∃ (built : List CompiledLookup) (labels : IdentifierPool),
      addPieces whole state index pieces = built.foldlM register { state with labels }
        ∧ built.map CompiledLookup.rules = pieces
        ∧ ∀ offset piece, built[offset]? = some piece →
            IsNumberedPiece whole (index + offset) piece := by
  induction pieces generalizing state index with
  | nil => exact ⟨[], state.labels, rfl, rfl, by simp⟩
  | cons rules pieces ih =>
      obtain ⟨label, own, added⟩ := exists_of_addPieces_cons whole state index rules pieces
      have numbered : IsNumberedPiece whole index { pieceDraft whole index rules with label } :=
        ⟨rfl, rfl, rfl, rfl, rfl, rfl⟩
      have ruled : { pieceDraft whole index rules with label }.rules = rules := rfl
      generalize { pieceDraft whole index rules with label } = first at added numbered ruled
      obtain ⟨built, labels, later, others, each⟩ := ih
        { state with labels := own, lookups := state.lookups.insert first.key first } (index + 1)
      refine ⟨first :: built, labels, ?_, congrArg₂ List.cons ruled others, ?_⟩
      · -- All pieces are entered just as well with the last pool from the start.
        rw [added, List.foldlM_cons]
        exact register_bind_congr later
      · intro offset piece found
        cases offset with
        | zero =>
            cases found
            exact numbered
        | succ offset =>
            have piece := each offset piece found
            rwa [Nat.add_assoc, Nat.add_comm 1] at piece

/-- The lookups are a single one with all its rules, or several pieces of it. -/
structure StandFor (whole : CompiledLookup) (built : List CompiledLookup) : Prop where
  single : built.length < 2 →
    built = [{ whole with rules := built.flatMap CompiledLookup.rules }]
  filled : 2 ≤ built.length → ∀ piece ∈ built, piece.rules ≠ []
  pieces : 2 ≤ built.length → ∀ index piece, built[index]? = some piece →
    IsNumberedPiece whole index piece

theorem standFor_single (whole : CompiledLookup) (rules : List Rule) :
    StandFor whole [{ whole with rules }] where
  single _ := by simp
  filled several := absurd several (by simp)
  pieces several := absurd several (by simp)

/-- A notice, or none, and some lookups that are added one after the other. -/
def Adds (state : Compilation) (built : List CompiledLookup) (added : Outcome Compilation) : Prop :=
  ∃ (notices : List Notice) (labels : IdentifierPool),
    added = (⟨notices, .ok ()⟩ : Outcome Unit) >>= fun _ =>
      built.foldlM register { state with labels }

theorem adds_register (state : Compilation) (lookup : CompiledLookup) :
    Adds state [lookup] (state.register lookup) := by
  refine ⟨[], state.labels, ?_⟩
  rw [Outcome.bind_ok, List.foldlM_cons, register_eq]
  simp [Outcome.bind_ok]

/-- Pairs that have rules are added in lookups that stand for all of them, whatever the limit. -/
theorem exists_of_pairRules
    {pairs : List PairRule}
    (resolved : definitions.pairRules location firsts seconds adjustments = .ok pairs)
    (options : Options)
    (whole : CompiledLookup)
    (state : Compilation) :
    ∃ built : List CompiledLookup,
      Adds state built
          (state.addPairs definitions options location firsts seconds adjustments whole)
        ∧ built.flatMap CompiledLookup.rules = pairs.map PairRule.rule
        ∧ StandFor whole built := by
  have uncut := adds_register state { whole with rules := pairs.map PairRule.rule }
  have stands := standFor_single whole (pairs.map PairRule.rule)
  have joined : [{ whole with rules := pairs.map PairRule.rule }].flatMap CompiledLookup.rules =
      pairs.map PairRule.rule := by simp
  rw [addPairs, resolved, Outcome.liftM_eq_ofExcept, Outcome.ofExcept_ok_bind]
  cases options.pairLimit with
  | none => exact ⟨_, uncut, joined, stands⟩
  | some limit =>
      obtain ⟨pieces, divided⟩ := exists_pairPieces resolved limit
      dsimp only
      rw [divided, Outcome.liftM_eq_ofExcept, Outcome.ofExcept_ok_bind]
      split
      · exact ⟨_, uncut, joined, stands⟩
      · split
        · exact ⟨_, uncut, joined, stands⟩
        · rename_i several
          obtain ⟨built, labels, added, ruled, each⟩ := exists_of_addPieces whole pieces state 0
          refine ⟨built, ⟨[_], labels, congrArg _ (funext fun _ => added)⟩, ?_, ?_⟩
          · rw [List.flatMap_def, ruled, flatten_pairPieces divided]
          · have length : built.length = pieces.length := by rw [← ruled, List.length_map]
            refine ⟨fun few => absurd few (length ▸ several), fun _ piece member => ?_, fun _ => ?_⟩
            · refine ne_nil_of_mem_pairPieces divided _ ?_
              rw [← ruled]
              exact List.mem_map_of_mem member
            · simpa using each

/-- Whatever the limit, adding a list of pairs comes to a result exactly if every pair can be
placed.  The lookups that are added then have one rule for each pair, in the order of the pairs;
if there are several of them, they are pieces of the whole, none of them without rules. -/
theorem addPairs_keeps_pairs
    (definitions : Definitions)
    (options : Options)
    (location : Location)
    (firsts seconds : List Coverage)
    (adjustments : List PairAdjustment)
    (whole : CompiledLookup)
    (state : Compilation) :
    ((∃ log next, state.addPairs definitions options location firsts seconds adjustments whole =
        ⟨log, .ok next⟩) ↔
          ∀ adjustment ∈ adjustments, definitions.CanPlace location firsts seconds adjustment)
      ∧ ∀ log next, state.addPairs definitions options location firsts seconds adjustments whole =
          ⟨log, .ok next⟩ →
        ∃ (built : List CompiledLookup) (added : List Notice),
          built.foldlM register { state with labels := next.labels } = ⟨added, .ok next⟩
            ∧ List.Forall₂ (definitions.PlacesPair location firsts seconds) adjustments
                (built.flatMap CompiledLookup.rules)
            ∧ StandFor whole built := by
  constructor
  · rw [← Definitions.exists_pairRules_iff]
    constructor
    · rintro ⟨log, next, added⟩
      obtain ⟨pairs, resolved, _⟩ := Outcome.liftM_bind_eq_ok_iff.mp added
      exact ⟨pairs, resolved⟩
    · rintro ⟨pairs, resolved⟩
      obtain ⟨built, ⟨notices, labels, added⟩, _⟩ :=
        exists_of_pairRules resolved options whole state
      obtain ⟨log, registered⟩ := exists_foldlM_register built { state with labels }
      rw [added, registered]
      exact ⟨_, _, rfl⟩
  · intro log next run
    obtain ⟨pairs, resolved, _⟩ := Outcome.liftM_bind_eq_ok_iff.mp run
    obtain ⟨built, ⟨notices, labels, added⟩, joined, stands⟩ :=
      exists_of_pairRules resolved options whole state
    obtain ⟨later, registered⟩ := exists_foldlM_register built { state with labels }
    rw [run, registered] at added
    cases added
    refine ⟨built, later, registered, ?_, stands⟩
    rw [joined]
    exact Definitions.placesPair_of_pairRules resolved

/-- A glyph, and a list of two. -/
def glyphThenList : List Coverage :=
  [[.glyph "A"], [.enumeration [.glyph "T", .glyph "L"]]]

/-- The glyph in front of another one, the list in front of it with all that a placement can have,
and the glyph once more. -/
def glyphAndListPairs : List PairAdjustment :=
  [⟨1, 1, { advance := some (-30) }, {}⟩,
    ⟨2, 1, { advance := some (-20), advanceDevices := [⟨11, -1⟩, ⟨12, 1⟩] },
      { dx := some 5, dy := some 7, xDevices := [⟨13, 2⟩], yDevices := [⟨14, -2⟩] }⟩,
    ⟨1, 1, { advance := some (-10) }, {}⟩]

/-- A lookup for these pairs that has no rules yet. -/
def kernDraft : CompiledLookup where
  id := .ofName "kern"
  sourceName := "kern"
  label := "kern"
  kind := .pairs
  comments := some "Letters"

/-- The pieces for these pairs under a limit of two, with the rules that a feature file has. -/
def glyphAndListPieces : List (String × List String) :=
  [("kern", ["enum pos A V -30;"]),
    ("kern\\2",
      ["enum pos [T L] <0 0 -20 0 <device NULL> <device NULL> <device 11 -1, 12 1> <device NULL>>"
        ++ " V <5 7 0 0 <device 13 2> <device 14 -2> <device NULL> <device NULL>>;"]),
    ("kern\\3", ["enum pos A V -10;"])]

theorem addPairs_keeps_pairs_glyphAndListPairs :
    ∃ log next,
      addPairs {} { glyphOrder := none } { pairLimit := some 2 } ⟨1, 1⟩ glyphThenList
          [[.glyph "V"]] glyphAndListPairs kernDraft = ⟨log, .ok next⟩
        ∧ (next.lookups.entries.map fun entry => (entry.1, entry.2.rules.map Rule.text)) =
            glyphAndListPieces
        ∧ (∀ adjustment ∈ glyphAndListPairs, Definitions.CanPlace { glyphOrder := none } ⟨1, 1⟩
            glyphThenList [[.glyph "V"]] adjustment)
        ∧ ∃ (built : List CompiledLookup) (added : List Notice),
            built.foldlM register { labels := next.labels } = ⟨added, .ok next⟩
              ∧ List.Forall₂ (Definitions.PlacesPair { glyphOrder := none } ⟨1, 1⟩ glyphThenList
                  [[.glyph "V"]]) glyphAndListPairs (built.flatMap CompiledLookup.rules)
              ∧ StandFor kernDraft built := by
  have entries : (addPairs {} { glyphOrder := none } { pairLimit := some 2 } ⟨1, 1⟩ glyphThenList
      [[.glyph "V"]] glyphAndListPairs kernDraft).result.toOption.map (fun next =>
        next.lookups.entries.map fun entry => (entry.1, entry.2.rules.map Rule.text)) =
        some glyphAndListPieces := by
    decide +kernel
  obtain ⟨log, next, run⟩ : ∃ log next,
      addPairs {} { glyphOrder := none } { pairLimit := some 2 } ⟨1, 1⟩ glyphThenList
        [[.glyph "V"]] glyphAndListPairs kernDraft = ⟨log, .ok next⟩ :=
    Outcome.exists_of_isOk (by decide +kernel)
  simp only [run, Except.toOption, Option.map_some, Option.some.injEq] at entries
  obtain ⟨placed, kept⟩ := addPairs_keeps_pairs { glyphOrder := none } { pairLimit := some 2 }
    ⟨1, 1⟩ glyphThenList [[.glyph "V"]] glyphAndListPairs kernDraft {}
  exact ⟨log, next, run, entries, placed.mp ⟨log, next, run⟩, kept log next run⟩

end Compilation
end GlyphLayout
