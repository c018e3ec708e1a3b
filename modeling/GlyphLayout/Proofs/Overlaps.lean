import GlyphLayout.Proofs.ByteOrder
import GlyphLayout.Proofs.Translation
import Mathlib.Data.List.Forall2

/-!
# Overlapping classes

The glyphs that several classes of one side of a pair positioning share are reported, each once, in
the order of their bytes.  Only coverages of two glyphs or more count as classes, and a glyph that
is repeated within one of them is not shared for that.
-/

namespace GlyphLayout

open Source (Coverage Location LookupDefinition PairAdjustment)

/-! ## Repeated glyphs -/

variable {glyph : String}

/-- A glyph is not repeated if it is in no two of the sets, and in none if it has been seen. -/
theorem not_mem_repeatedGlyphs_iff {seen : List String} {sets : List (List String)} :
    glyph ∉ repeatedGlyphs seen sets ↔
      (∀ set ∈ sets, glyph ∈ set → glyph ∉ seen)
        ∧ sets.Pairwise fun first second => ¬(glyph ∈ first ∧ glyph ∈ second) := by
  induction sets generalizing seen with
  | nil => simp [repeatedGlyphs]
  | cons set sets ih =>
      simp only [repeatedGlyphs, List.mem_append, List.mem_filter, List.contains_iff_mem, not_or,
        not_and, ih, List.forall_mem_cons, List.pairwise_cons]
      constructor
      · rintro ⟨here, later, apart⟩
        exact ⟨⟨here, fun other member inside => (later other member inside).1⟩,
          fun other member inSet inOther => (later other member inOther).2 inSet, apart⟩
      · rintro ⟨⟨here, later⟩, others, apart⟩
        exact ⟨here, fun other member inside =>
          ⟨later other member inside, fun inSet => others other member inSet inside⟩, apart⟩

/-- Sorting glyphs neither adds nor drops one. -/
theorem mem_ascending_iff {glyphs : List String} : glyph ∈ ascending glyphs ↔ glyph ∈ glyphs := by
  have run (known : SortedMap String Unit) :
      glyph ∈ (glyphs.foldl (fun known glyph => known.insert glyph ()) known).entries.map
          Prod.fst ↔ glyph ∈ glyphs ∨ glyph ∈ known.entries.map Prod.fst := by
    induction glyphs generalizing known with
    | nil => simp
    | cons first glyphs ih =>
        have inserted : glyph ∈ (known.insert first ()).entries.map Prod.fst ↔
            glyph = first ∨ glyph ∈ known.entries.map Prod.fst :=
          SortedMap.mem_map_fst_put_iff
        rw [List.foldl_cons, ih, inserted, List.mem_cons, or_left_comm, or_assoc]
  have start : glyph ∉ (∅ : SortedMap String Unit).entries.map Prod.fst := List.not_mem_nil
  rw [ascending, run, or_iff_left start]

/-- Each glyph is named once, in ascending order. -/
theorem pairwise_ascending (glyphs : List String) : (ascending glyphs).Pairwise (· < ·) :=
  List.pairwise_map.mpr (SortedMap.sorted _)

/-! ## Shared glyphs -/

/-- The glyph is in the coverage at the index, which is a class: it has two glyphs or more. -/
def Definitions.InClass (definitions : Definitions) (location : Location)
    (coverages : List Coverage) (index : Nat) (glyph : String) : Prop :=
  ∃ coverage glyphs, coverages[index]? = some coverage
    ∧ definitions.expand location coverage = .ok glyphs ∧ 2 ≤ glyphs.length ∧ glyph ∈ glyphs

/-- The glyph is in two classes that stand at different places. -/
def Definitions.IsShared (definitions : Definitions) (location : Location)
    (coverages : List Coverage) (glyph : String) : Prop :=
  ∃ first second, first ≠ second ∧ definitions.InClass location coverages first glyph
    ∧ definitions.InClass location coverages second glyph

namespace Definitions

variable {definitions : Definitions} {location : Location} {coverages : List Coverage}
  {sets : List (List String)}

/-- Once the coverages are expanded, their classes are the sets of two glyphs or more. -/
theorem inClass_iff
    (expanded : coverages.mapM (definitions.expand location) = .ok sets)
    {index : Nat} :
    definitions.InClass location coverages index glyph ↔
      ∃ inside : index < sets.length, 2 ≤ sets[index].length ∧ glyph ∈ sets[index] := by
  obtain ⟨lengths, each⟩ := List.forall₂_iff_get.mp (except_mapM_eq_ok_iff.mp expanded)
  constructor
  · rintro ⟨coverage, glyphs, found, expands, several, member⟩
    obtain ⟨inside, rfl⟩ := List.getElem?_eq_some_iff.mp found
    have same := each index inside (lengths ▸ inside)
    rw [List.get_eq_getElem, expands, List.get_eq_getElem, Except.ok.injEq] at same
    exact ⟨lengths ▸ inside, same ▸ several, same ▸ member⟩
  · rintro ⟨inside, several, member⟩
    have there : index < coverages.length := lengths ▸ inside
    exact ⟨coverages[index], sets[index], List.getElem?_eq_getElem there,
      each index there inside, several, member⟩

/-- What is repeated in the classes is what they share. -/
theorem mem_repeatedGlyphs_iff
    (expanded : coverages.mapM (definitions.expand location) = .ok sets) :
    glyph ∈ repeatedGlyphs [] (sets.filter (2 ≤ ·.length)) ↔
      definitions.IsShared location coverages glyph := by
  rw [← not_iff_not, not_mem_repeatedGlyphs_iff, List.pairwise_filter,
    List.pairwise_iff_getElem]
  simp only [decide_eq_true_eq]
  constructor
  · rintro ⟨_, apart⟩ ⟨first, second, different, inFirst, inSecond⟩
    obtain ⟨firstInside, firstSeveral, firstMember⟩ := (inClass_iff expanded).mp inFirst
    obtain ⟨secondInside, secondSeveral, secondMember⟩ := (inClass_iff expanded).mp inSecond
    rcases Nat.lt_or_gt_of_ne different with before | after
    · exact apart first second firstInside secondInside before firstSeveral secondSeveral
        ⟨firstMember, secondMember⟩
    · exact apart second first secondInside firstInside after secondSeveral firstSeveral
        ⟨secondMember, firstMember⟩
  · intro unshared
    refine ⟨fun _ _ _ => List.not_mem_nil, fun first second firstInside secondInside before
      firstSeveral secondSeveral both => unshared ⟨first, second, before.ne, ?_, ?_⟩⟩
    · exact (inClass_iff expanded).mpr ⟨firstInside, firstSeveral, both.1⟩
    · exact (inClass_iff expanded).mpr ⟨secondInside, secondSeveral, both.2⟩

/-! ## Reports -/

/-- The reports on one side name exactly the glyphs that its classes share. -/
structure ReportsShared (definitions : Definitions) (lookup : LookupDefinition) (side : Side)
    (coverages : List Coverage) (reports : List Notice) : Prop where
  silent : (∀ glyph, ¬definitions.IsShared lookup.location coverages glyph) → reports = []
  /-- One report has each shared glyph, once, and the glyphs are in the order of their bytes. -/
  told : (∃ glyph, definitions.IsShared lookup.location coverages glyph) →
    ∃ shared, reports = [.overlappingClasses lookup.location side lookup.name shared]
      ∧ (∀ glyph, glyph ∈ shared ↔ definitions.IsShared lookup.location coverages glyph)
      ∧ shared.Pairwise fun first second => Text.bytes first < Text.bytes second

/-- If every coverage expands, the report names what the classes share, and nothing fails. -/
theorem reportsShared_of_expanded
    {lookup : LookupDefinition}
    (expands : ∀ coverage ∈ coverages, ∃ glyphs,
      definitions.expand lookup.location coverage = .ok glyphs)
    (side : Side) :
    ∃ reports, definitions.reportOverlaps lookup.location lookup.name side coverages =
        ⟨reports, .ok ()⟩
      ∧ definitions.ReportsShared lookup side coverages reports := by
  obtain ⟨sets, expanded⟩ := exists_except_mapM_of_forall expands
  have shared (glyph : String) :
      glyph ∈ ascending (repeatedGlyphs [] (sets.filter (2 ≤ ·.length))) ↔
        definitions.IsShared lookup.location coverages glyph :=
    mem_ascending_iff.trans (mem_repeatedGlyphs_iff expanded)
  unfold reportOverlaps
  rw [expanded, Outcome.ofExcept_ok_bind]
  refine ⟨_, Outcome.tellIf_eq_ok _ _, fun nothing => if_neg ?_, fun some => ⟨_, if_pos ?_,
    shared, ?_⟩⟩
  · simp only [Bool.not_eq_true', Bool.not_eq_false]
    exact List.isEmpty_iff.mpr (List.eq_nil_iff_forall_not_mem.mpr fun glyph member =>
      nothing glyph ((shared glyph).mp member))
  · obtain ⟨glyph, isShared⟩ := some
    have member := (shared glyph).mpr isShared
    rw [Bool.not_eq_true', List.isEmpty_eq_false_iff]
    exact List.ne_nil_of_mem member
  · exact (pairwise_ascending _).imp fun below => Text.bytes_lt_bytes_iff.mpr below

end Definitions

/-! ## All other notices -/

/-- The notice is about classes that overlap. -/
def Notice.isOverlap : Notice → Bool
  | overlappingClasses .. => true
  | _ => false

/-- The reports of classes that overlap, in order. -/
def overlapsReported (log : List Notice) : List Notice :=
  log.filter Notice.isOverlap

/-- The reports of two steps are those of the first, then those of the second. -/
theorem overlapsReported_append (first second : List Notice) :
    overlapsReported (first ++ second) = overlapsReported first ++ overlapsReported second :=
  List.filter_append ..

theorem Definitions.ReportsShared.overlapsReported_eq
    {definitions : Definitions}
    {lookup : LookupDefinition}
    {side : Side}
    {coverages : List Coverage}
    {reports : List Notice}
    (reported : definitions.ReportsShared lookup side coverages reports) :
    overlapsReported reports = reports := by
  by_cases some : ∃ glyph, definitions.IsShared lookup.location coverages glyph
  · obtain ⟨shared, rfl, _⟩ := reported.told some
    rfl
  · rw [reported.silent (not_exists.mp some)]
    rfl

namespace Outcome

variable {α β : Type}

/-- The step reports no classes that overlap, whatever it comes to. -/
structure Quiet (outcome : Outcome α) : Prop where
  notices : ∀ notice ∈ outcome.log, notice.isOverlap = false

/-- A quiet step adds nothing to the reports. -/
theorem Quiet.overlapsReported_eq {outcome : Outcome α} (quiet : outcome.Quiet) :
    overlapsReported outcome.log = [] :=
  List.filter_eq_nil_iff.mpr fun notice member => Bool.eq_false_iff.mp (quiet.notices notice member)

@[simp] theorem quiet_ok (value : α) : Quiet ⟨[], .ok value⟩ :=
  ⟨nofun⟩

@[simp] theorem quiet_fail (error : ConversionError) : Quiet (fail error : Outcome α) :=
  ⟨nofun⟩

@[simp] theorem quiet_ofExcept (result : Except ConversionError α) : Quiet (ofExcept result) :=
  ⟨nofun⟩

@[simp] theorem quiet_tell_iff {notice : Notice} :
    Quiet (tell notice) ↔ notice.isOverlap = false :=
  ⟨fun quiet => quiet.notices notice (List.mem_singleton_self _),
    fun other => ⟨List.forall_mem_singleton.mpr other⟩⟩

/-- Two steps are quiet if both are. -/
theorem quiet_bind
    {first : Outcome α}
    {next : α → Outcome β}
    (before : Quiet first)
    (after : ∀ value, Quiet (next value)) :
    Quiet (first >>= next) := by
  obtain ⟨log, error | value⟩ := first
  · exact ⟨before.notices⟩
  · exact ⟨List.forall_mem_append.mpr ⟨before.notices, (after value).notices⟩⟩

/-- Steps that are quiet in every state are quiet in a row. -/
theorem quiet_foldlM
    {step : β → α → Outcome β}
    (each : ∀ state item, Quiet (step state item))
    (items : List α)
    (start : β) :
    Quiet (items.foldlM step start) := by
  induction items generalizing start with
  | nil => exact quiet_ok start
  | cons item items ih => exact quiet_bind (each start item) ih

end Outcome

namespace Compilation

open Outcome (Quiet quiet_bind quiet_foldlM quiet_ofExcept quiet_ok)

variable {definitions : Definitions} {options : Options} {lookup : LookupDefinition}
  {positioning : Source.Positioning}

theorem quiet_register (state : Compilation) (lookup : CompiledLookup) :
    (state.register lookup).Quiet := by
  refine quiet_bind ?_ fun _ => quiet_ok _
  unfold Outcome.tellIf
  split <;> simp [Notice.isOverlap]

theorem quiet_skipConstruct (state : Compilation) (construct : Construct) (location : Location) :
    (state.skipConstruct options construct location).Quiet := by
  unfold skipConstruct
  split
  · simp
  · split
    · simp
    · exact quiet_bind (by simp [Notice.isOverlap]) fun _ => quiet_ok _

/-- A helper is reported as such, not as an overlap. -/
theorem quiet_helperFor
    (progress : Progress)
    (location : Location)
    (parent : CompiledLookup) :
    (helperFor progress definitions location positioning parent).Quiet := by
  unfold helperFor
  split
  · exact quiet_ok _
  · refine quiet_bind (by simp [Notice.isOverlap]) fun _ => ?_
    exact quiet_bind (quiet_ofExcept _) fun _ =>
      quiet_bind (quiet_register ..) fun _ => quiet_ok _

/-- Contexts report no overlap: their coverages are no sides of a pair. -/
theorem quiet_writeContext
    (parent : CompiledLookup)
    (progress : Progress)
    (context : RuleContext) :
    (writeContext definitions options lookup positioning parent progress context).Quiet := by
  unfold writeContext
  split
  · exact quiet_bind (quiet_ofExcept _) fun _ => quiet_ok _
  · split
    · exact quiet_bind (quiet_skipConstruct ..) fun _ => quiet_ok _
    · split
      · exact quiet_bind (quiet_ofExcept _) fun _ => quiet_ok _
      · exact quiet_bind (quiet_helperFor ..) fun _ =>
          quiet_bind (quiet_ofExcept _) fun _ => quiet_ok _

theorem quiet_addContextual
    (state : Compilation)
    (contexts : List RuleContext)
    (draft : CompiledLookup) :
    (state.addContextual definitions options lookup positioning contexts draft).Quiet :=
  quiet_bind (quiet_foldlM (quiet_writeContext _) ..) fun _ => quiet_register ..

/-- Pieces are registered without a report of overlaps. -/
theorem quiet_addPieces
    (draft : CompiledLookup)
    (pieces : List (List Feature.Rule))
    (state : Compilation)
    (index : Nat) :
    (addPieces draft state index pieces).Quiet := by
  induction pieces generalizing state index with
  | nil => exact quiet_ok state
  | cons rules rest ih => exact quiet_bind (quiet_register ..) fun next => ih next _

/-- Pairs are added without a report of their own, be they cut into pieces or not. -/
theorem quiet_addPairs
    (state : Compilation)
    (location : Location)
    (firsts seconds : List Coverage)
    (adjustments : List PairAdjustment)
    (draft : CompiledLookup) :
    (state.addPairs definitions options location firsts seconds adjustments draft).Quiet := by
  unfold addPairs
  refine quiet_bind (quiet_ofExcept _) fun pairs => ?_
  dsimp only
  split
  · exact quiet_register ..
  · split
    · exact quiet_register ..
    · refine quiet_bind (quiet_ofExcept _) fun pieces => ?_
      split
      · exact quiet_register ..
      · exact quiet_bind (by simp [Notice.isOverlap]) fun _ => quiet_addPieces ..

/--
When a pair positioning is compiled whose coverages can all be expanded, the glyphs that the classes
of its first side share are reported, then those that the classes of its second side share, and
nothing else is reported about classes.  This does not depend on what has been compiled before, nor
on whether compiling the pairs comes to a result.
-/
theorem overlapsReported_addPositioning
    {firsts seconds : List Coverage}
    (expands : ∀ coverage ∈ firsts ++ seconds, ∃ glyphs,
      definitions.expand lookup.location coverage = .ok glyphs)
    (options : Options)
    (adjustments : List PairAdjustment)
    (contexts : List RuleContext)
    (draft : CompiledLookup)
    (state : Compilation) :
    ∃ first second,
      overlapsReported (state.addPositioning definitions options lookup
          (.pairs firsts seconds adjustments) contexts draft).log = first ++ second
        ∧ definitions.ReportsShared lookup .first firsts first
        ∧ definitions.ReportsShared lookup .second seconds second := by
  obtain ⟨firstExpands, secondExpands⟩ := List.forall_mem_append.mp expands
  obtain ⟨first, firstReported, firstShared⟩ :=
    Definitions.reportsShared_of_expanded firstExpands .first
  obtain ⟨second, secondReported, secondShared⟩ :=
    Definitions.reportsShared_of_expanded secondExpands .second
  refine ⟨first, second, ?_, firstShared, secondShared⟩
  unfold addPositioning
  simp only [firstReported, secondReported, Outcome.bind_ok, overlapsReported_append,
    firstShared.overlapsReported_eq, secondShared.overlapsReported_eq]
  rw [Outcome.Quiet.overlapsReported_eq, List.append_nil]
  split
  · exact quiet_addPairs ..
  · exact quiet_addContextual ..

/-- Two classes share one glyph, two share another, and a third glyph is in one class only. -/
def roundLetters : List Coverage :=
  [[.glyph "o", .glyph "c"], [.glyph "e", .glyph "o", .glyph "e"], [.glyph "e"],
    [.glyph "c", .glyph "d"]]

/-- Pairs of round letters and one capital. -/
def roundKerning : LookupDefinition where
  name := "kern"
  processBase := true
  marks := .all
  direction := some .leftToRight
  reversal := false
  comments := none
  contexts := []
  payload := .positioning (.pairs roundLetters [[.glyph "T"]] [])
  location := ⟨1, 1⟩

theorem overlapsReported_addPositioning_roundKerning :
    (∀ coverage ∈ roundLetters ++ [[.glyph "T"]], ∃ glyphs,
        ({ glyphOrder := none } : Definitions).expand ⟨1, 1⟩ coverage = .ok glyphs)
      ∧ ∃ first second,
        first ++ second = [.overlappingClasses ⟨1, 1⟩ .first "kern" ["c", "o"]]
          ∧ Definitions.ReportsShared { glyphOrder := none } roundKerning .first roundLetters first
          ∧ Definitions.ReportsShared { glyphOrder := none } roundKerning .second [[.glyph "T"]]
            second := by
  have expands : ∀ coverage ∈ roundLetters ++ [[.glyph "T"]], ∃ glyphs,
      ({ glyphOrder := none } : Definitions).expand ⟨1, 1⟩ coverage = .ok glyphs := by
    simp only [roundLetters, List.cons_append, List.nil_append, List.forall_mem_cons,
      List.not_mem_nil, false_implies, implies_true, and_true]
    exact ⟨⟨_, rfl⟩, ⟨_, rfl⟩, ⟨_, rfl⟩, ⟨_, rfl⟩, ⟨_, rfl⟩⟩
  obtain ⟨first, second, reported, firstShared, secondShared⟩ :=
    @overlapsReported_addPositioning { glyphOrder := none } roundKerning _ _ expands {} [] []
      (draftOf roundKerning {}) {}
  refine ⟨expands, first, second, ?_, firstShared, secondShared⟩
  rw [← reported]
  decide +kernel

end Compilation
end GlyphLayout
