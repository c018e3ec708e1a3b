import GlyphLayout.Proofs.Source.Places
import GlyphLayout.Proofs.Source.WellFormed

/-!
# Reading what was written

Each parser reads the lexemes with which a value was written as that value, and leaves what
stands behind them.  A parser of an open list needs to know that what stands behind does not
go on with the list.
-/

namespace GlyphLayout
namespace Source

/-- Lexemes that are left to read, all at the start of a text. -/
def Remaining.ofLexemes (lexemes : List Lexeme) : Remaining :=
  .ofList (lexemes.map fun lexeme => ⟨lexeme, .start⟩)

theorem Remaining.next?_ofLexemes (lexeme : Lexeme) (rest : List Lexeme) :
    (ofLexemes (lexeme :: rest)).next? = some (⟨lexeme, .start⟩, ofLexemes rest) := rfl

@[simp] theorem Remaining.size_ofLexemes (lexemes : List Lexeme) :
    (ofLexemes lexemes).size = lexemes.length := by
  simp [ofLexemes, ofList]

/-- What a reader of single lexemes takes does not come next. -/
def Past {α : Type} (read : Lexeme → Option α) (rest : List Lexeme) : Prop :=
  ∀ lexeme ∈ rest.head?, read lexeme = none

@[simp] theorem past_cons {α : Type} (read : Lexeme → Option α) (lexeme : Lexeme)
    (rest : List Lexeme) :
    Past read (lexeme :: rest) ↔ read lexeme = none := by
  simp [Past]

/-- Behind a list comes what is in front of its items, or what is behind it. -/
theorem past_flatMap_append
    {α β : Type}
    {read : Lexeme → Option α}
    {write : β → List Lexeme}
    {items : List β}
    {rest : List Lexeme}
    (each : ∀ item ∈ items, ∀ later, Past read (write item ++ later))
    (behind : Past read rest) :
    Past read (items.flatMap write ++ rest) := by
  cases items with
  | nil => exact behind
  | cons item items =>
      rw [List.flatMap_cons, List.append_assoc]
      exact each item (List.mem_cons_self ..) _

namespace Parser

open Remaining (ofLexemes)

variable {α β σ : Type}

/-! ## One step after the other -/

@[simp] theorem bind_apply
    (first : Parser α)
    (next : α → Parser β)
    (remaining : Remaining) :
    (first >>= next) remaining = (first remaining >>= fun read => next read.1 read.2) := rfl

@[simp] theorem pure_apply (value : α) (remaining : Remaining) :
    (pure value : Parser α) remaining = .ok (value, remaining) := rfl

@[simp] theorem map_apply (f : α → β) (parser : Parser α) (remaining : Remaining) :
    (f <$> parser) remaining = (parser remaining >>= fun read => .ok (f read.1, read.2)) := rfl

@[simp] theorem ok_bind (value : α) (next : α → Except Failure β) :
    (Except.ok value >>= next) = next value := rfl

/-- The parser takes the lexemes for the value, if what stands behind them is as it should be. -/
def Reads
    (behind : List Lexeme → Prop)
    (parser : Parser α)
    (lexemes : List Lexeme)
    (value : α) : Prop :=
  ∀ rest, behind rest → parser (ofLexemes (lexemes ++ rest)) = .ok (value, ofLexemes rest)

/-- The parser takes the lexemes for the value, whatever stands behind them. -/
abbrev ReadsAlways (parser : Parser α) (lexemes : List Lexeme) (value : α) : Prop :=
  Reads (fun _ => True) parser lexemes value

/-- A token that has to be there is taken from the front of the lexemes. -/
theorem take_cons
    {read : Lexeme → Option α} {lexeme : Lexeme} {value : α}
    (found : read lexeme = some value)
    (problem : Option Lexeme → Problem)
    (rest : List Lexeme) :
    take read problem (ofLexemes (lexeme :: rest)) = .ok ((value, .start), ofLexemes rest) := by
  simp [take, Remaining.next?_ofLexemes, found]

/-- A token that may be there is taken from the front of the lexemes. -/
theorem take?_cons
    {read : Lexeme → Option α} {lexeme : Lexeme} {value : α}
    (found : read lexeme = some value)
    (rest : List Lexeme) :
    take? read (ofLexemes (lexeme :: rest)) = .ok (some (value, .start), ofLexemes rest) := by
  simp [take?, Remaining.next?_ofLexemes, found]

/-- In front of other lexemes nothing is taken. -/
theorem take?_past {read : Lexeme → Option α} {rest : List Lexeme} (past : Past read rest) :
    take? read (ofLexemes rest) = .ok (none, ofLexemes rest) := by
  cases rest with
  | nil => rfl
  | cons lexeme rest => simp [take?, Remaining.next?_ofLexemes, (past_cons ..).mp past]

@[simp] theorem isKeyword_self (mark : String) : isKeyword mark (.word mark) = some () :=
  if_pos rfl

/-- A mark is told from every other word. -/
@[simp] theorem isKeyword_word_eq_none_iff (mark text : String) :
    isKeyword mark (.word text) = none ↔ text ≠ mark := by
  simp [isKeyword]

/-- A numeral is no keyword, unless the keyword reads as an integer. -/
theorem isKeyword_numeral
    (mark : String)
    (notNumeral : Text.integer? mark.toList = none)
    (value : Int) :
    isKeyword mark (.numeral value) = none := by
  rw [Lexeme.numeral, isKeyword_word_eq_none_iff]
  exact Text.decimal_ne notNumeral value

@[simp] theorem keyword_cons (mark : String) (rest : List Lexeme) :
    keyword mark (ofLexemes (.word mark :: rest)) = .ok ((), ofLexemes rest) := by
  simp [keyword, take_cons (isKeyword_self mark)]

@[simp] theorem keyword?_cons (mark : String) (rest : List Lexeme) :
    keyword? mark (ofLexemes (.word mark :: rest)) = .ok (true, ofLexemes rest) := by
  simp [keyword?, take?_cons (isKeyword_self mark)]

/-- In front of other lexemes a mark is missing. -/
theorem keyword?_past {mark : String} {rest : List Lexeme} (past : Past (isKeyword mark) rest) :
    keyword? mark (ofLexemes rest) = .ok (false, ofLexemes rest) := by
  simp [keyword?, take?_past past]

@[simp] theorem quoted_cons (text : String) (rest : List Lexeme) :
    quoted (ofLexemes (.quoted text :: rest)) = .ok (text, ofLexemes rest) := rfl

@[simp] theorem name_cons (text : String) (rest : List Lexeme) :
    name (ofLexemes (.quoted text :: rest)) = .ok (text, ofLexemes rest) := rfl

/-- A word is read as the value that its text stands for. -/
theorem word_cons
    {read : String → Option α} {text : String} {value : α}
    (found : read text = some value)
    (what : String)
    (rest : List Lexeme) :
    word what read (ofLexemes (.word text :: rest)) = .ok (value, ofLexemes rest) := by
  simp [word, take_cons (show ofWord read (.word text) = some value from found)]

/-- A number that was written is read as itself. -/
@[simp] theorem uint16_cons (what : String) (value : UInt16) (rest : List Lexeme) :
    word what Text.uint16? (ofLexemes (.numeral value.toNat :: rest)) =
      .ok (value, ofLexemes rest) :=
  word_cons (Text.uint16?_decimal value) what rest

@[simp] theorem int16_cons (what : String) (value : Int16) (rest : List Lexeme) :
    word what Text.int16? (ofLexemes (.numeral value.toInt :: rest)) =
      .ok (value, ofLexemes rest) :=
  word_cons (Text.int16?_decimal value) what rest

/-! ## Repetitions -/

/-- A step that does not go on ends the repetition. -/
theorem iterate_stop
    {step : σ → Parser (Option σ)} {state : σ} {remaining rest : Remaining}
    (stops : step state remaining = .ok (none, rest)) :
    iterate step state remaining = .ok (state, rest) := by
  rw [iterate, stops]

/-- A step that goes on is followed by the others. -/
theorem iterate_next
    {step : σ → Parser (Option σ)} {state next : σ} {lexemes rest : List Lexeme}
    (goesOn : step state (ofLexemes (lexemes ++ rest)) = .ok (some next, ofLexemes rest))
    (filled : lexemes ≠ []) :
    iterate step state (ofLexemes (lexemes ++ rest)) = iterate step next (ofLexemes rest) := by
  have shorter : (ofLexemes rest).size < (ofLexemes (lexemes ++ rest)).size := by
    have some := List.length_pos_iff.mpr filled
    simp only [Remaining.size_ofLexemes, List.length_append]
    omega
  rw [iterate, goesOn]
  exact if_pos shorter

theorem iterate_cons
    {step : σ → Parser (Option σ)} {state next : σ} {lexeme : Lexeme} {rest : List Lexeme}
    (goesOn : step state (ofLexemes (lexeme :: rest)) = .ok (some next, ofLexemes rest)) :
    iterate step state (ofLexemes (lexeme :: rest)) = iterate step next (ofLexemes rest) :=
  iterate_next (show step state (ofLexemes ([lexeme] ++ rest)) = _ from goesOn) (by simp)

/-- A repetition takes the items of a list one after the other. -/
theorem iterate_reads
    {step : σ → Parser (Option σ)}
    {write : α → List Lexeme}
    {place : α → σ → σ}
    {behind : List Lexeme → Prop}
    {items : List α}
    (each : ∀ item ∈ items, ∀ state,
      Reads behind (step state) (write item) (some (place item state)))
    (filled : ∀ item ∈ items, write item ≠ [])
    (again : ∀ item ∈ items, ∀ later, behind (write item ++ later))
    {rest : List Lexeme}
    (last : behind rest)
    (state : σ) :
    iterate step state (ofLexemes (items.flatMap write ++ rest)) =
      iterate step (items.foldl (fun state item => place item state) state) (ofLexemes rest) := by
  induction items generalizing state with
  | nil => rfl
  | cons item items ih =>
      obtain ⟨readsItem, eachLater⟩ := List.forall_mem_cons.mp each
      obtain ⟨filledItem, filledLater⟩ := List.forall_mem_cons.mp filled
      obtain ⟨-, againLater⟩ := List.forall_mem_cons.mp again
      have next : behind (items.flatMap write ++ rest) := by
        cases items with
        | nil => exact last
        | cons second items =>
            rw [List.flatMap_cons, List.append_assoc]
            exact againLater second (List.mem_cons_self ..) _
      rw [List.flatMap_cons, List.append_assoc,
        iterate_next (readsItem state _ next) filledItem,
        ih eachLater filledLater againLater]
      rfl

/-- A list is read item after item. -/
theorem many_reads
    {item : Parser (Option β)}
    {behind : List Lexeme → Prop}
    (write : α → List Lexeme)
    (read : α → β)
    (values : List α)
    (each : ∀ value ∈ values, Reads behind item (write value) (some (read value)))
    (filled : ∀ value ∈ values, write value ≠ [])
    (again : ∀ value ∈ values, ∀ later, behind (write value ++ later))
    {rest : List Lexeme}
    {finish : Remaining}
    (last : behind rest)
    (stops : item (ofLexemes rest) = .ok (none, finish)) :
    many item (ofLexemes (values.flatMap write ++ rest)) = .ok (values.map read, finish) := by
  have reads (value : α) (member : value ∈ values) (found : List β) :
      Reads behind (do return (← item).map (· :: found)) (write value)
        (some (read value :: found)) := by
    intro later follows
    simp [each value member later follows]
  have collected (found : List β) :
      values.foldl (fun found value => read value :: found) found =
        (values.map read).reverse ++ found := by
    induction values generalizing found with
    | nil => rfl
    | cons value values ih => simp_all
  have stopped (found : List β) :
      (do return (← item).map (· :: found) : Parser (Option (List β))) (ofLexemes rest) =
        .ok (none, finish) := by
    simp [stops]
  rw [many, bind_apply, iterate_reads reads filled again last, iterate_stop (stopped _)]
  simp [collected]

/-! ## Coverages -/

/-- No coverage item begins with a numeral. -/
theorem itemWord?_numeral (value : Int) : itemWord? (.numeral value) = none := by
  have other {mark : String} (notNumeral : Text.integer? mark.toList = none) :
      Lexeme.numeral value ≠ .word mark :=
    fun same => Text.decimal_ne notNumeral value (Lexeme.word.inj same)
  unfold itemWord?
  split
  · exact absurd ‹_› (other (by decide))
  · exact absurd ‹_› (other (by decide))
  · exact absurd ‹_› (other (by decide))
  · exact absurd ‹_› (other (by decide))
  · rfl

/-- A step of a coverage behind its last item, in an open enumeration, closes the enumeration. -/
theorem coverageStep_close
    (items : Coverage)
    (outer : List Coverage)
    (inner : Coverage)
    (rest : List Lexeme) :
    coverageStep ⟨items :: outer, inner⟩ (ofLexemes (.word "END_ENUM" :: rest)) =
      .ok (some ⟨outer, .enumeration inner.reverse :: items⟩, ofLexemes rest) := by
  have past : Past itemWord? (.word "END_ENUM" :: rest) := (past_cons ..).mpr rfl
  simp [coverageStep, take?_past past]

mutual

/-- An item is added to the innermost enumeration. -/
theorem iterate_item (item : CoverageItem) (state : OpenCoverage) (rest : List Lexeme) :
    iterate coverageStep state (ofLexemes (item.lexemes ++ rest)) =
      iterate coverageStep (state.push item) (ofLexemes rest) := by
  match item with
  | .glyph name =>
      have word : itemWord? (.word "GLYPH") = some .glyph := rfl
      refine iterate_next ?_ (by simp [CoverageItem.lexemes])
      simp [CoverageItem.lexemes, coverageStep, take?_cons word]
  | .group name =>
      have word : itemWord? (.word "GROUP") = some .group := rfl
      refine iterate_next ?_ (by simp [CoverageItem.lexemes])
      simp [CoverageItem.lexemes, coverageStep, take?_cons word]
  | .range first last =>
      have word : itemWord? (.word "RANGE") = some .range := rfl
      refine iterate_next ?_ (by simp [CoverageItem.lexemes])
      simp [CoverageItem.lexemes, coverageStep, take?_cons word]
  | .enumeration items =>
      have word : itemWord? (.word "ENUM") = some .enumeration := rfl
      have opens (later : List Lexeme) :
          coverageStep state (ofLexemes (.word "ENUM" :: later)) =
            .ok (some state.enter, ofLexemes later) := by
        simp [coverageStep, take?_cons word]
      simp only [CoverageItem.lexemes, List.cons_append, List.append_assoc, List.nil_append]
      rw [iterate_cons (opens _), iterate_coverage items state.enter,
        OpenCoverage.enter, List.append_nil, iterate_cons (coverageStep_close ..),
        List.reverse_reverse]
      rfl

/-- The items of a coverage are added to the innermost enumeration, one after the other. -/
theorem iterate_coverage (items : Coverage) (state : OpenCoverage) (rest : List Lexeme) :
    iterate coverageStep state (ofLexemes (coverageLexemes items ++ rest)) =
      iterate coverageStep ⟨state.outer, items.reverse ++ state.items⟩ (ofLexemes rest) := by
  match items with
  | [] => rfl
  | item :: items =>
      rw [coverageLexemes, List.append_assoc, iterate_item, iterate_coverage]
      simp [OpenCoverage.push]

end

/-- A coverage is read up to the first word that starts no item. -/
theorem coverage_reads (items : Coverage) :
    Reads (Past itemWord?) coverage (coverageLexemes items) items := by
  intro rest past
  have stops (read : Coverage) :
      coverageStep ⟨[], read⟩ (ofLexemes rest) = .ok (none, ofLexemes rest) := by
    simp [coverageStep, take?_past past]
  simp [coverage, iterate_coverage, iterate_stop (stops _)]

/-- Behind coverages in a row comes their keyword, or what is behind them. -/
theorem past_coveragesAfter_append
    {read : Lexeme → Option α} {rest : List Lexeme}
    (mark : String)
    (other : read (.word mark) = none)
    (behind : Past read rest)
    (coverages : List Coverage) :
    Past read (coveragesAfter mark coverages ++ rest) :=
  past_flatMap_append (fun _ _ _ => (past_cons ..).mpr other) behind

/-- A coverage begins with the keyword of an item, unless it is empty. -/
theorem past_coverage_append
    {read : Lexeme → Option α} {rest : List Lexeme}
    (others : ∀ mark ∈ ["GLYPH", "GROUP", "RANGE", "ENUM"], read (.word mark) = none)
    (behind : Past read rest)
    (items : Coverage) :
    Past read (coverageLexemes items ++ rest) := by
  match items with
  | [] => exact behind
  | .glyph _ :: _ | .group _ :: _ | .range _ _ :: _ | .enumeration _ :: _ =>
      simp [coverageLexemes, CoverageItem.lexemes, others]

/-- A coverage behind a mark is read back, up to a word that is no item. -/
theorem coverageAfter?_reads (mark : String) (items : Coverage) :
    Reads (Past itemWord?) (coverageAfter? mark) (.word mark :: coverageLexemes items)
      (some items) := by
  intro rest past
  simp [coverageAfter?, coverage_reads items rest past]

/-- Coverages in a row are read up to a word that is not their keyword and starts no item. -/
theorem many_coverageAfter?
    (mark : String)
    {rest : List Lexeme}
    (noItem : itemWord? (.word mark) = none)
    (past : Past itemWord? rest)
    (stops : Past (isKeyword mark) rest)
    (coverages : List Coverage) :
    many (coverageAfter? mark) (ofLexemes (coveragesAfter mark coverages ++ rest)) =
      .ok (coverages, ofLexemes rest) := by
  have stop : coverageAfter? mark (ofLexemes rest) = .ok (none, ofLexemes rest) := by
    simp [coverageAfter?, keyword?_past stops]
  have read := many_reads (fun items => .word mark :: coverageLexemes items) id coverages
    (fun items _ => coverageAfter?_reads mark items) (by simp)
    (fun _ _ _ => (past_cons ..).mpr noItem) past stop
  rwa [List.map_id] at read

/-! ## Placements -/

/-- An adjustment for a device is read back, whatever comes behind it. -/
theorem device?_reads (device : DeviceAdjustment) :
    ReadsAlways device? (deviceLexemes device) (some device) := by
  intro rest _
  simp [device?, deviceLexemes]

/-- A value is read back with its devices, and without a value there are none. -/
theorem value?_reads
    (mark what : String)
    {value : Option Int16}
    {devices : List DeviceAdjustment}
    (given : value = none → devices = []) :
    Reads (fun rest => Past (isKeyword mark) rest ∧ Past (isKeyword "ADJUST_BY") rest)
      (value? mark what) (valueLexemes mark devices value) (value, devices) := by
  intro rest ⟨past, noDevice⟩
  cases value with
  | none => simp [value?, valueLexemes, keyword?_past past, given]
  | some value =>
      have stop : device? (ofLexemes rest) = .ok (none, ofLexemes rest) := by
        simp [device?, keyword?_past noDevice]
      have read := many_reads deviceLexemes id devices (fun device _ => device?_reads device)
        (by simp [deviceLexemes]) (by simp) trivial stop
      simp [value?, valueLexemes, read]

theorem past_value_append
    {read : Lexeme → Option α} {mark : String} {rest : List Lexeme}
    (other : read (.word mark) = none)
    (behind : Past read rest)
    (devices : List DeviceAdjustment)
    (value : Option Int16) :
    Past read (valueLexemes mark devices value ++ rest) := by
  cases value with
  | none => exact behind
  | some value => exact (past_cons ..).mpr other

/-- A placement is read back, since each of its values has a mark of its own. -/
theorem placement_reads {value : Placement} (formed : value.WellFormed) :
    ReadsAlways placement value.lexemes value := by
  intro rest _
  have behindDx {mark : String} (other : "DY" ≠ mark) (last : "END_POS" ≠ mark) :
      Past (isKeyword mark)
        (valueLexemes "DY" value.yDevices value.dy ++ .word "END_POS" :: rest) :=
    past_value_append (by simpa using other) (by simpa using last) _ _
  have behindAdvance {mark : String}
      (first : "DX" ≠ mark) (other : "DY" ≠ mark) (last : "END_POS" ≠ mark) :
      Past (isKeyword mark)
        (valueLexemes "DX" value.xDevices value.dx ++
          (valueLexemes "DY" value.yDevices value.dy ++ .word "END_POS" :: rest)) :=
    past_value_append (by simpa using first) (behindDx other last) _ _
  have advance := value?_reads "ADV" "an advance" formed.advance _
    ⟨behindAdvance (by decide) (by decide) (by decide),
      behindAdvance (by decide) (by decide) (by decide)⟩
  have dx := value?_reads "DX" "an x offset" formed.dx _
    ⟨behindDx (by decide) (by decide), behindDx (by decide) (by decide)⟩
  have dy := value?_reads "DY" "a y offset" formed.dy (.word "END_POS" :: rest) (by simp)
  simp [placement, Placement.lexemes, advance, dx, dy]

/-! ## Positionings -/

/-- A numeral is read as the value that its text stands for. -/
theorem numeral?_word
    {read : String → Option α} {text : String} {value : α}
    (numeral : Text.isNumeral text = true)
    (found : read text = some value)
    (what : String)
    (rest : List Lexeme) :
    numeral? what read (ofLexemes (.word text :: rest)) = .ok (some value, ofLexemes rest) := by
  have word : numeralWord? (.word text) = some text := if_pos numeral
  simp [numeral?, take?_cons word, found]

/-- A numeral without a value of the kind that is read is refused. -/
theorem numeral?_refused
    {read : String → Option α} {text : String}
    (numeral : Text.isNumeral text = true)
    (none : read text = none)
    (what : String)
    (rest : List Lexeme) :
    numeral? what read (ofLexemes (.word text :: rest)) =
      .error ⟨.expected what (some (.word text)), some .start⟩ := by
  have word : numeralWord? (.word text) = some text := if_pos numeral
  simp only [numeral?, bind_apply, take?_cons word, ok_bind, none]
  rfl

theorem numeral?_cons
    {read : String → Option α} {integer : Int} {value : α}
    (numeral : Text.isNumeral (Text.decimal integer) = true)
    (found : read (Text.decimal integer) = some value)
    (what : String)
    (rest : List Lexeme) :
    numeral? what read (ofLexemes (.numeral integer :: rest)) =
      .ok (some value, ofLexemes rest) :=
  numeral?_word numeral found what rest

theorem numeral?_past
    {rest : List Lexeme}
    (past : Past numeralWord? rest)
    (what : String)
    (read : String → Option α) :
    numeral? what read (ofLexemes rest) = .ok (none, ofLexemes rest) := by
  simp [numeral?, take?_past past]

/-- A pair is read back with both its placements. -/
theorem pair?_reads
    {pair : PairAdjustment}
    (first : pair.firstPlacement.WellFormed)
    (second : pair.secondPlacement.WellFormed) :
    ReadsAlways pair? pair.lexemes (some pair) := by
  intro rest _
  have index := numeral?_cons (Text.isNumeral_decimal_uint16 pair.first)
    (Text.uint16?_decimal pair.first) "a FIRST index"
  have readsFirst := placement_reads first (pair.secondPlacement.lexemes ++ rest) trivial
  have readsSecond := placement_reads second rest trivial
  simp [pair?, PairAdjustment.lexemes, index, readsFirst, readsSecond]

theorem single?_reads
    {single : Coverage × Placement}
    (formed : single.2.WellFormed) :
    ReadsAlways single? (singleLexemes single) (some single) := by
  intro rest _
  have covered := coverage_reads single.1 (.word "BY" :: (single.2.lexemes ++ rest))
    ((past_cons ..).mpr rfl)
  have notLast := keyword?_past (past_coverage_append (by decide)
    ((past_cons (isKeyword "END_ADJUST") (.word "BY") (single.2.lexemes ++ rest)).mpr rfl) single.1)
  simp [single?, singleLexemes, notLast, covered, placement_reads formed rest trivial]

/-- An attachment is read back with the name of its anchor. -/
theorem attached?_reads (attached : Coverage × String) :
    ReadsAlways attached? (attachedLexemes attached) (some attached) := by
  intro rest _
  have covered := coverage_reads attached.1
    (.word "AT" :: .word "ANCHOR" :: .quoted attached.2 :: rest) ((past_cons ..).mpr rfl)
  have notLast := keyword?_past (past_coverage_append (by decide)
    ((past_cons (isKeyword "END_ATTACH") (.word "AT")
      (.word "ANCHOR" :: .quoted attached.2 :: rest)).mpr rfl) attached.1)
  simp [attached?, attachedLexemes, notLast, covered]

/-- A coverage behind a word for the left goes to the left. -/
theorem gatherStep_left
    {word : Lexeme → Option Bool} {mark : String}
    (named : word (.word mark) = some true)
    (items : Coverage)
    (sides : List Coverage × List Coverage) :
    Reads (Past itemWord?) (gatherStep word sides) (.word mark :: coverageLexemes items)
      (some (items :: sides.1, sides.2)) := by
  intro rest past
  simp [gatherStep, take?_cons named, coverage_reads items rest past]

theorem gatherStep_right
    {word : Lexeme → Option Bool} {mark : String}
    (named : word (.word mark) = some false)
    (items : Coverage)
    (sides : List Coverage × List Coverage) :
    Reads (Past itemWord?) (gatherStep word sides) (.word mark :: coverageLexemes items)
      (some (sides.1, items :: sides.2)) := by
  intro rest past
  simp [gatherStep, take?_cons named, coverage_reads items rest past]

/-- Coverages behind either of two keywords are gathered on two sides. -/
theorem iterate_gatherStep
    {word : Lexeme → Option Bool} {leftMark rightMark : String}
    (namesLeft : word (.word leftMark) = some true)
    (namesRight : word (.word rightMark) = some false)
    (noItemLeft : itemWord? (.word leftMark) = none)
    (noItemRight : itemWord? (.word rightMark) = none)
    {rest : List Lexeme}
    (noItem : Past itemWord? rest)
    (noSide : Past word rest)
    (left right : List Coverage) :
    iterate (gatherStep word) ([], [])
        (ofLexemes (coveragesAfter leftMark left ++ (coveragesAfter rightMark right ++ rest))) =
      .ok ((left.reverse, right.reverse), ofLexemes rest) := by
  have gatherLeft (sides : List Coverage × List Coverage) :
      left.foldl (fun sides items => (items :: sides.1, sides.2)) sides =
        (left.reverse ++ sides.1, sides.2) := by
    induction left generalizing sides with
    | nil => rfl
    | cons items left ih => simp [ih]
  have gatherRight (sides : List Coverage × List Coverage) :
      right.foldl (fun sides items => (sides.1, items :: sides.2)) sides =
        (sides.1, right.reverse ++ sides.2) := by
    induction right generalizing sides with
    | nil => rfl
    | cons items right ih => simp [ih]
  have stop (sides : List Coverage × List Coverage) :
      gatherStep word sides (ofLexemes rest) = .ok (none, ofLexemes rest) := by
    simp [gatherStep, take?_past noSide]
  rw [coveragesAfter, iterate_reads (fun items _ sides => gatherStep_left namesLeft items sides)
      (by simp) (fun _ _ _ => (past_cons ..).mpr noItemLeft)
      (past_coveragesAfter_append rightMark noItemRight noItem right),
    coveragesAfter, iterate_reads (fun items _ sides => gatherStep_right namesRight items sides)
      (by simp) (fun _ _ _ => (past_cons ..).mpr noItemRight) noItem,
    gatherLeft, gatherRight, iterate_stop (stop _)]
  simp

/-- Pairs are read back in the order in which they were written. -/
theorem pairs_read
    (first second : List Coverage)
    {adjustments : List PairAdjustment}
    (formed : ∀ pair ∈ adjustments,
      pair.firstPlacement.WellFormed ∧ pair.secondPlacement.WellFormed) :
    ReadsAlways (positioningOf .pairs)
      (coveragesAfter "FIRST" first ++
        (coveragesAfter "SECOND" second ++
          (adjustments.flatMap PairAdjustment.lexemes ++ [.word "END_ADJUST"])))
      (.pairs first second adjustments) := by
  intro rest _
  have noPair : Past numeralWord? (.word "END_ADJUST" :: rest) := (past_cons ..).mpr rfl
  have stop : pair? (ofLexemes (.word "END_ADJUST" :: rest)) =
      .ok (none, ofLexemes (.word "END_ADJUST" :: rest)) := by
    simp [pair?, numeral?_past noPair]
  have read := many_reads PairAdjustment.lexemes id adjustments
    (fun pair member => pair?_reads (formed pair member).1 (formed pair member).2)
    (by simp [PairAdjustment.lexemes]) (by simp) trivial stop
  -- Behind the coverages comes a numeral, or the end if there are no pairs.
  have behind {γ : Type} {reader : Lexeme → Option γ}
      (noNumeral : ∀ value, reader (.numeral value) = none)
      (notLast : reader (.word "END_ADJUST") = none) :
      Past reader (adjustments.flatMap PairAdjustment.lexemes ++ .word "END_ADJUST" :: rest) :=
    past_flatMap_append (fun _ _ _ => (past_cons ..).mpr (noNumeral _))
      ((past_cons ..).mpr notLast)
  have noItem := behind itemWord?_numeral rfl
  have notFirst := behind (isKeyword_numeral "FIRST" (by decide)) rfl
  have notSecond := behind (isKeyword_numeral "SECOND" (by decide)) rfl
  have readsFirst := many_coverageAfter? "FIRST" rfl
    (past_coveragesAfter_append "SECOND" rfl noItem second)
    (past_coveragesAfter_append "SECOND" rfl notFirst second) first
  have readsSecond := many_coverageAfter? "SECOND" rfl noItem notSecond second
  simp [positioningOf, readsFirst, readsSecond, read]

theorem singles_read
    {adjustments : List (Coverage × Placement)}
    (formed : ∀ single ∈ adjustments, single.2.WellFormed) :
    ReadsAlways (positioningOf .singles)
      (adjustments.flatMap singleLexemes ++ [.word "END_ADJUST"]) (.singles adjustments) := by
  intro rest _
  have stop : single? (ofLexemes (.word "END_ADJUST" :: rest)) = .ok (none, ofLexemes rest) := by
    simp [single?]
  have read := many_reads singleLexemes id adjustments
    (fun single member => single?_reads (formed single member)) (by simp [singleLexemes])
    (by simp) trivial stop
  simp [positioningOf, read]

/-- An attachment is read back: the bases, then the marks behind their word. -/
theorem attach_read (bases : Coverage) (marks : List (Coverage × String)) :
    ReadsAlways (positioningOf .attach)
      (coverageLexemes bases ++
        (.word "TO" :: (marks.flatMap attachedLexemes ++ [.word "END_ATTACH"])))
      (.attach bases marks) := by
  intro rest _
  have stop : attached? (ofLexemes (.word "END_ATTACH" :: rest)) = .ok (none, ofLexemes rest) := by
    simp [attached?]
  have read := many_reads attachedLexemes id marks (fun attached _ => attached?_reads attached)
    (by simp [attachedLexemes]) (by simp) trivial stop
  have covered := coverage_reads bases
    (.word "TO" :: (marks.flatMap attachedLexemes ++ .word "END_ATTACH" :: rest))
    ((past_cons ..).mpr rfl)
  simp [positioningOf, covered, read]

/-- A cursive attachment is read back, with its exits written in front of its entries. -/
theorem cursive_read (exits entries : List Coverage) :
    ReadsAlways (positioningOf .cursive)
      (coveragesAfter "EXIT" exits ++ (coveragesAfter "ENTER" entries ++ [.word "END_ATTACH"]))
      (.cursive exits entries) := by
  intro rest _
  have noJoin : Past joinWord? (.word "END_ATTACH" :: rest) := (past_cons ..).mpr rfl
  have noItem : Past itemWord? (.word "END_ATTACH" :: rest) := (past_cons ..).mpr rfl
  have namesExit : joinWord? (.word "EXIT") = some true := rfl
  have namesEntry : joinWord? (.word "ENTER") = some false := rfl
  have read := iterate_gatherStep namesExit namesEntry rfl rfl noItem noJoin exits entries
  simp [positioningOf, joinStep, read]

/-- A positioning is read by the parser of its kind. -/
theorem positioning_of_kind
    {mark : String} {kind : PositioningWord} {lexemes : List Lexeme} {value : Positioning}
    (named : positioningWord? mark = some kind)
    (reads : ReadsAlways (positioningOf kind) lexemes value) :
    ReadsAlways positioning (.word mark :: (lexemes ++ [.word "END_POSITION"])) value := by
  intro rest _
  have opening := word_cons named "a positioning type"
    (lexemes ++ .word "END_POSITION" :: rest)
  simp [positioning, opening, reads (.word "END_POSITION" :: rest) trivial]

/-- A positioning is read back, closing word included. -/
theorem positioning_reads {value : Positioning} (formed : value.WellFormed) :
    ReadsAlways positioning (value.lexemes ++ [.word "END_POSITION"]) value := by
  cases value with
  | pairs first second adjustments =>
      exact positioning_of_kind rfl (pairs_read first second formed)
  | singles adjustments => exact positioning_of_kind rfl (singles_read formed)
  | attach bases marks => exact positioning_of_kind rfl (attach_read bases marks)
  | cursive exits entries => exact positioning_of_kind rfl (cursive_read exits entries)

end Parser
end Source
end GlyphLayout
