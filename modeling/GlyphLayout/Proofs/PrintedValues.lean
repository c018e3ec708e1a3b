import GlyphLayout.Feature.Value
import GlyphLayout.Proofs.Source.Literals
import GlyphLayout.Proofs.Source.Numerals

/-!
# Printed values that are read back

A reader of anchors and value records.  It finds an anchor again in its text, and in the text of
a value record all of its numbers and device adjustments, where a number that is missing is taken
for zero.  So a text stands for one anchor, or for one value record up to missing numbers.
-/

namespace GlyphLayout
namespace Feature

open Text (decimal joined int16? uint16? pieces)

/-! ## Readers -/

/-- A reader takes a value from the front of a text, or fails. -/
abbrev Reader := StateT (List Char) Option

/-- The character may stand in a number. -/
def isNumberChar (c : Char) : Bool :=
  c.isDigit || c == '-'

namespace Reader

/-- Takes a literal text from the front. -/
def literal (expected : String) : Reader Unit := fun cs =>
  (expected.toList.isPrefixOf? cs).map fun rest => ((), rest)

/-- Takes a literal text if it comes next, and tells whether it did. -/
def literal? (expected : String) : Reader Bool := fun cs =>
  match expected.toList.isPrefixOf? cs with
  | some rest => some (true, rest)
  | none => some (false, cs)

/-- Takes the characters of the given kind from the front. -/
def during (kind : Char → Bool) : Reader (List Char) := fun cs =>
  some (cs.takeWhile kind, cs.dropWhile kind)

/-- Takes a number. -/
def number : Reader Int16 := do
  let characters ← during isNumberChar
  int16? (String.ofList characters)

/-- The device adjustment that an entry of a list gives. -/
def adjustment? (entry : List Char) : Option DeviceAdjustment :=
  match pieces ' ' (entry.dropWhile (· == ' ')) with
  | [ppem, delta] => do
      return ⟨← uint16? (String.ofList ppem), ← int16? (String.ofList delta)⟩
  | _ => none

/-- The device adjustments of a list that may be absent. -/
def adjustments? (list : List Char) : Option (List DeviceAdjustment) :=
  if list = "NULL".toList then some [] else (pieces ',' list).mapM adjustment?

/-- Takes the device adjustments of a number. -/
def devices : Reader (List DeviceAdjustment) := do
  literal "<device "
  let list ← during (· != '>')
  literal ">"
  adjustments? list

/-- Takes an anchor. -/
def anchor : Reader Anchor := do
  literal "<anchor "
  let x ← number
  literal " "
  let y ← number
  if ← literal? ">" then return { x, y }
  literal " "
  let xDevices ← devices
  literal " "
  let yDevices ← devices
  literal ">"
  return { x, y, xDevices, yDevices }

/-- Takes a value record with all its parts. -/
def fullValue : Reader Value := do
  let x ← number
  literal " "
  let y ← number
  literal " "
  let advance ← number
  literal " 0"
  if ← literal? ">" then return { x := some x, y := some y, advance := some advance }
  literal " "
  let xDevices ← devices
  literal " "
  let yDevices ← devices
  literal " "
  let advanceDevices ← devices
  literal " <device NULL>>"
  return { x := some x, y := some y, advance := some advance, xDevices, yDevices, advanceDevices }

/-- Takes a value record, which may be an advance alone. -/
def value : Reader Value := do
  if ← literal? "<" then fullValue
  else return { x := some 0, y := some 0, advance := some (← number) }

/-- What a reader takes from a whole text. -/
def ofText? {α : Type} (reader : Reader α) (text : String) : Option α :=
  match reader text.toList with
  | some (value, []) => some value
  | _ => none

/-! ## Parts of a text -/

variable {α β : Type}

theorem bind_eq
    {first : Reader α} {next : α → Reader β} {text rest : List Char} {value : α}
    (taken : first text = some (value, rest)) :
    (first >>= next) text = next value rest := by
  change (first text).bind (fun found => next found.1 found.2) = _
  rw [taken, Option.bind_some]

theorem isPrefixOf?_append (expected : String) (rest : List Char) :
    expected.toList.isPrefixOf? (expected.toList ++ rest) = some rest :=
  List.isPrefixOf?_eq_some_iff_append_eq.mpr rfl

/-- An expected text is read off the front. -/
theorem literal_append (expected : String) (rest : List Char) :
    literal expected (expected.toList ++ rest) = some ((), rest) := by
  rw [literal, isPrefixOf?_append, Option.map_some]

theorem literal?_append (expected : String) (rest : List Char) :
    literal? expected (expected.toList ++ rest) = some (true, rest) := by
  rw [literal?, isPrefixOf?_append]

/-- Where another text begins, an optional one is not there. -/
theorem literal?_other
    {expected : String} {text : List Char}
    (differs : ¬ expected.toList <+: text) :
    literal? expected text = some (false, text) := by
  unfold literal?
  split
  · rename_i rest found
    exact absurd ⟨rest, List.isPrefixOf?_eq_some_iff_append_eq.mp found⟩ differs
  · rfl

/-- Characters of a kind are read up to the first of another kind. -/
theorem during_append
    {kind : Char → Bool} {front rest : List Char}
    (inside : ∀ c ∈ front, kind c = true)
    (stops : ∀ c ∈ rest.head?, kind c = false) :
    during kind (front ++ rest) = some (front, rest) := by
  have none : rest.takeWhile kind = [] ∧ rest.dropWhile kind = rest := by
    cases rest with
    | nil => exact ⟨rfl, rfl⟩
    | cons c cs =>
        have outside := stops c rfl
        exact ⟨List.takeWhile_cons_of_neg (by simp [outside]),
          List.dropWhile_cons_of_neg (by simp [outside])⟩
  rw [during, List.takeWhile_append_of_pos inside, List.dropWhile_append_of_pos inside, none.1,
    none.2, List.append_nil]

/-- A number is written in digits and a sign. -/
theorem isNumberChar_of_mem_decimal
    {value : Int} {c : Char}
    (member : c ∈ (decimal value).toList) :
    isNumberChar c = true := by
  rcases Text.isDigit_of_mem_decimal member with rfl | digit
  · rfl
  · rw [isNumberChar, digit, Bool.true_or]

/-- A printed number is read, if no further digit comes behind it. -/
theorem number_append
    {value : Int16} {rest : List Char}
    (stops : ∀ c ∈ rest.head?, isNumberChar c = false) :
    number ((decimal value.toInt).toList ++ rest) = some (value, rest) := by
  rw [number, bind_eq (during_append (fun _ => isNumberChar_of_mem_decimal) stops),
    String.ofList_toList, Text.int16?_decimal]
  rfl

/-! ## Device adjustments -/

/-- What stands between the brackets of some device adjustments. -/
def deviceList : List DeviceAdjustment → List Char
  | [] => "NULL".toList
  | adjustments => (joined ", " (adjustments.map deviceEntry)).toList

theorem toList_deviceText (adjustments : List DeviceAdjustment) :
    (deviceText adjustments).toList =
      "<device ".toList ++ (deviceList adjustments ++ ">".toList) := by
  cases adjustments with
  | nil => decide
  | cons first others =>
      simp only [deviceText, deviceList, String.toList_append, List.append_assoc]

/-- An entry for a device holds no comma, so entries can be told apart. -/
theorem char_of_mem_deviceEntry
    {adjustment : DeviceAdjustment} {c : Char}
    (member : c ∈ (deviceEntry adjustment).toList) :
    isNumberChar c = true ∨ c = ' ' := by
  simp only [deviceEntry, String.toList_append, List.mem_append] at member
  rcases member with (ppem | space) | delta
  · exact .inl (isNumberChar_of_mem_decimal ppem)
  · exact .inr (List.mem_singleton.mp space)
  · exact .inl (isNumberChar_of_mem_decimal delta)

/-- The characters of a list of adjustments are those of numbers, but for separators. -/
theorem char_of_mem_joined
    {adjustments : List DeviceAdjustment} {c : Char}
    (member : c ∈ (joined ", " (adjustments.map deviceEntry)).toList) :
    isNumberChar c = true ∨ c = ' ' ∨ c = ',' := by
  induction adjustments with
  | nil => cases member
  | cons first others ih =>
      cases others with
      | nil => exact (char_of_mem_deviceEntry member).imp_right .inl
      | cons second others =>
          rw [List.map_cons, List.map_cons, Text.joined_cons_cons, String.toList_append,
            String.toList_append, List.mem_append, List.mem_append] at member
          rcases member with (entry | separator) | later
          · exact (char_of_mem_deviceEntry entry).imp_right .inl
          · right
            simpa [or_comm] using separator
          · exact ih later

/-- An entry is read back, whatever spaces stand in front of it. -/
theorem adjustment?_deviceEntry
    {lead : List Char}
    (spaces : ∀ c ∈ lead, c = ' ')
    (adjustment : DeviceAdjustment) :
    adjustment? (lead ++ (deviceEntry adjustment).toList) = some adjustment := by
  have clean (value : Int) : ' ' ∉ (decimal value).toList := fun inside =>
    absurd (isNumberChar_of_mem_decimal inside) (by decide)
  have entry : (deviceEntry adjustment).toList =
      (decimal adjustment.ppem.toNat).toList ++ ' ' :: (decimal adjustment.delta.toInt).toList := by
    rw [deviceEntry, String.toList_append, String.toList_append, List.append_assoc]
    rfl
  have stays : ((deviceEntry adjustment).toList).dropWhile (· == ' ') =
      (deviceEntry adjustment).toList := by
    obtain ⟨c, cs, same⟩ := List.exists_cons_of_ne_nil (Text.decimal_ne_nil adjustment.ppem.toNat)
    have first : c ≠ ' ' := by
      rintro rfl
      exact clean _ (same ▸ List.mem_cons_self ..)
    rw [entry, same]
    exact List.dropWhile_cons_of_neg (by simpa using first)
  rw [adjustment?, List.dropWhile_append_of_pos (by simpa using spaces), stays, entry,
    Source.pieces_append_separator (clean _), Source.pieces_of_clean (clean _)]
  simp only [String.ofList_toList, Text.uint16?_decimal, Text.int16?_decimal]
  rfl

/-- The entries of a list are read one by one; those behind the first begin with a space. -/
theorem mapM_adjustment?_joined
    {lead : List Char}
    (spaces : ∀ c ∈ lead, c = ' ')
    {adjustments : List DeviceAdjustment}
    (filled : adjustments ≠ []) :
    (pieces ',' (lead ++ (joined ", " (adjustments.map deviceEntry)).toList)).mapM adjustment? =
      some adjustments := by
  have clean {lead : List Char} (spaces : ∀ c ∈ lead, c = ' ') (adjustment : DeviceAdjustment) :
      ',' ∉ lead ++ (deviceEntry adjustment).toList := by
    intro inside
    rcases List.mem_append.mp inside with space | entry
    · exact absurd (spaces _ space) (by decide)
    · exact absurd (char_of_mem_deviceEntry entry) (by decide)
  -- What stands in front is general, since a space follows each comma.
  induction adjustments generalizing lead with
  | nil => exact absurd rfl filled
  | cons first others ih =>
      cases others with
      | nil =>
          rw [List.map_singleton, Text.joined_singleton,
            Source.pieces_of_clean (clean spaces first), List.mapM_cons,
            adjustment?_deviceEntry spaces]
          rfl
      | cons second others =>
          have split : lead ++ (joined ", " ((first :: second :: others).map deviceEntry)).toList =
              (lead ++ (deviceEntry first).toList) ++
                ',' :: ([' '] ++ (joined ", " ((second :: others).map deviceEntry)).toList) := by
            rw [List.map_cons, List.map_cons, Text.joined_cons_cons]
            simp only [String.toList_append, List.append_assoc]
            rfl
          rw [split, Source.pieces_append_separator (clean spaces first), List.mapM_cons,
            adjustment?_deviceEntry spaces, ih (by simp) (by simp)]
          rfl

/-- A list without adjustments is written as a word of its own. -/
theorem adjustments?_deviceList (adjustments : List DeviceAdjustment) :
    adjustments? (deviceList adjustments) = some adjustments := by
  cases adjustments with
  | nil => rw [adjustments?, deviceList, if_pos rfl]
  | cons first others =>
      have read := @mapM_adjustment?_joined [] (by simp) _ (List.cons_ne_nil first others)
      -- A list with entries has no letters.
      have numbers : deviceList (first :: others) ≠ "NULL".toList := by
        intro same
        have letter : 'N' ∈ deviceList (first :: others) := by
          rw [same]
          decide
        exact absurd (char_of_mem_joined letter) (by decide)
      rw [adjustments?, if_neg numbers]
      exact read

/-- Adjustments for devices are read back from the middle of a text. -/
theorem devices_append (adjustments : List DeviceAdjustment) (rest : List Char) :
    devices ((deviceText adjustments).toList ++ rest) = some (adjustments, rest) := by
  have inside : ∀ c ∈ deviceList adjustments, (c != '>') = true := by
    intro c member
    rw [bne_iff_ne]
    rintro rfl
    cases adjustments with
    | nil => exact absurd member (by decide)
    | cons first others => exact absurd (char_of_mem_joined member) (by decide)
  have stops : ∀ c ∈ (">".toList ++ rest).head?, (c != '>') = false := by
    rintro c ⟨⟩
    rfl
  rw [toList_deviceText, devices, List.append_assoc, List.append_assoc,
    bind_eq (literal_append ..), bind_eq (during_append inside stops),
    bind_eq (literal_append ..), adjustments?_deviceList]
  rfl

/-! ## Anchors and value records -/

theorem space_stops (rest : List Char) :
    ∀ c ∈ (" ".toList ++ rest).head?, isNumberChar c = false := by
  rintro c ⟨⟩
  rfl

theorem close_stops (rest : List Char) :
    ∀ c ∈ (">".toList ++ rest).head?, isNumberChar c = false := by
  rintro c ⟨⟩
  rfl

/-- A space is no closing bracket, so more values are to come. -/
theorem literal?_close_of_space (rest : List Char) :
    literal? ">" (" ".toList ++ rest) = some (false, " ".toList ++ rest) :=
  literal?_other (by simp)

/-- An anchor is read back from its text. -/
theorem anchor_text (printed : Anchor) : anchor printed.text.toList = some (printed, []) := by
  obtain ⟨x, y, xDevices, yDevices⟩ := printed
  rw [anchor, Anchor.text]
  dsimp only
  split
  · rename_i none
    simp only [Bool.and_eq_true, List.isEmpty_iff] at none
    obtain ⟨rfl, rfl⟩ := none
    simp only [String.append_empty, String.toList_append, List.append_assoc]
    rw [← List.append_nil ">".toList, bind_eq (literal_append ..),
      bind_eq (number_append (space_stops _)), bind_eq (literal_append ..),
      bind_eq (number_append (close_stops _)), bind_eq (literal?_append ..)]
    rfl
  · simp only [String.toList_append, List.append_assoc]
    rw [← List.append_nil ">".toList, bind_eq (literal_append ..),
      bind_eq (number_append (space_stops _)), bind_eq (literal_append ..),
      bind_eq (number_append (space_stops _)), bind_eq (literal?_close_of_space _),
      if_neg Bool.false_ne_true, bind_eq (literal_append ..), bind_eq (devices_append ..),
      bind_eq (literal_append ..), bind_eq (devices_append ..), bind_eq (literal_append ..)]
    rfl

end Reader

namespace Value

/-- The value record in which missing numbers are zero. -/
def filled (value : Value) : Value :=
  { value with
    x := some (value.x.getD 0)
    y := some (value.y.getD 0)
    advance := some (value.advance.getD 0) }

theorem hasDevices_eq_false_iff {value : Value} :
    value.hasDevices = false ↔
      value.xDevices = [] ∧ value.yDevices = [] ∧ value.advanceDevices = [] := by
  simp [hasDevices, and_assoc]

/-- A value record with a short form has an advance and nothing else. -/
theorem eq_of_justAdvance?
    {value : Value} {advance : Int16}
    (just : value.justAdvance? = some advance) :
    value = { advance := some advance } := by
  obtain ⟨x, y, other, xDevices, yDevices, advanceDevices⟩ := value
  unfold justAdvance? at just
  split at just
  · rename_i nothing
    simp only [Bool.and_eq_true, Option.isNone_iff_eq_none, Bool.not_eq_true',
      hasDevices_eq_false_iff] at nothing
    obtain ⟨⟨rfl, rfl⟩, rfl, rfl, rfl⟩ := nothing
    exact congrArg (fun advance => ({ advance } : Value)) just
  · cases just

end Value

namespace Reader

/-- A value in four parts is read back, with the parts that were not given as zeros. -/
theorem value_fullText (printed : Value) :
    value printed.fullText.toList = some (printed.filled, []) := by
  have devicesEmpty : deviceText [] = "<device NULL>" := rfl
  have final : " ".toList ++ ("<device NULL>".toList ++ ">".toList) =
      " <device NULL>>".toList ++ [] := by
    decide
  have zero (rest : List Char) : ∀ c ∈ (" 0".toList ++ rest).head?, isNumberChar c = false := by
    rintro c ⟨⟩
    rfl
  obtain ⟨x, y, advance, xDevices, yDevices, advanceDevices⟩ := printed
  rw [value, Value.fullText]
  dsimp only [Value.partText]
  split
  · simp only [String.toList_append, List.append_assoc, devicesEmpty, final]
    rw [bind_eq (literal?_append ..), if_pos rfl, fullValue,
      bind_eq (number_append (space_stops _)), bind_eq (literal_append ..),
      bind_eq (number_append (space_stops _)), bind_eq (literal_append ..),
      bind_eq (number_append (zero _)), bind_eq (literal_append ..),
      bind_eq (literal?_close_of_space _), if_neg Bool.false_ne_true,
      bind_eq (literal_append ..), bind_eq (devices_append ..),
      bind_eq (literal_append ..), bind_eq (devices_append ..),
      bind_eq (literal_append ..), bind_eq (devices_append ..), bind_eq (literal_append ..)]
    rfl
  · rename_i none
    simp only [Bool.not_eq_true, Value.hasDevices_eq_false_iff] at none
    obtain ⟨rfl, rfl, rfl⟩ := none
    simp only [String.append_empty, String.toList_append, List.append_assoc]
    rw [← List.append_nil ">".toList, bind_eq (literal?_append ..), if_pos rfl, fullValue,
      bind_eq (number_append (space_stops _)), bind_eq (literal_append ..),
      bind_eq (number_append (space_stops _)), bind_eq (literal_append ..),
      bind_eq (number_append (zero _)), bind_eq (literal_append ..),
      bind_eq (literal?_append ..)]
    rfl

/-- A value in its shortest form is read back, with the parts that were not given as zeros. -/
theorem value_text (printed : Value) : value printed.text.toList = some (printed.filled, []) := by
  unfold Value.text
  split
  · rename_i advance just
    rw [Value.eq_of_justAdvance? just]
    have open_differs : ¬ "<".toList <+: (decimal advance.toInt).toList := by
      rintro ⟨rest, same⟩
      have inside : '<' ∈ (decimal advance.toInt).toList := by
        rw [← same]
        exact List.mem_append_left _ (by decide)
      exact absurd (isNumberChar_of_mem_decimal inside) (by decide)
    have read : number (decimal advance.toInt).toList = some (advance, []) := by
      rw [← List.append_nil (decimal _).toList]
      exact number_append (by simp)
    rw [value, bind_eq (literal?_other open_differs), if_neg Bool.false_ne_true, bind_eq read]
    rfl
  · exact value_fullText printed

theorem ofText?_eq
    {reader : Reader α} {text : String} {value : α}
    (read : reader text.toList = some (value, [])) :
    reader.ofText? text = some value := by
  rw [ofText?, read]

end Reader

/-! ## What a text stands for -/

open Reader (ofText?)

/--
An anchor is read from its text, and a value record from its text and from its long text, but for
missing numbers, which are read as zero.  So different anchors have different texts, and value
records with one text have the same numbers, with zero for a missing one, and the same device
adjustments.
-/
theorem printed_read_back :
    (∀ anchor : Anchor, ofText? .anchor anchor.text = some anchor) ∧
    (∀ value : Value, ofText? .value value.text = some value.filled ∧
      ofText? .value value.fullText = some value.filled) ∧
    (∀ first second : Anchor, first.text = second.text → first = second) ∧
    ∀ first second : Value, first.text = second.text →
      first.x.getD 0 = second.x.getD 0 ∧
      first.y.getD 0 = second.y.getD 0 ∧
      first.advance.getD 0 = second.advance.getD 0 ∧
      first.xDevices = second.xDevices ∧
      first.yDevices = second.yDevices ∧
      first.advanceDevices = second.advanceDevices := by
  have anchors (anchor : Anchor) : ofText? .anchor anchor.text = some anchor :=
    Reader.ofText?_eq (Reader.anchor_text anchor)
  have values (value : Value) : ofText? .value value.text = some value.filled :=
    Reader.ofText?_eq (Reader.value_text value)
  refine ⟨anchors, fun value => ⟨values value, Reader.ofText?_eq (Reader.value_fullText value)⟩,
    fun first second same => ?_, fun first second same => ?_⟩
  · have read := anchors first
    rw [same, anchors] at read
    exact (Option.some.inj read).symm
  · have read := values first
    rw [same, values] at read
    have filled := Option.some.inj read
    simp only [Value.filled, Value.mk.injEq, Option.some.injEq] at filled
    obtain ⟨x, y, advance, xDevices, yDevices, advanceDevices⟩ := filled
    exact ⟨x.symm, y.symm, advance.symm, xDevices.symm, yDevices.symm, advanceDevices.symm⟩

/-- An anchor with device adjustments of its height alone. -/
def adjustedAnchor : Anchor :=
  { x := 0, y := 456, yDevices := [⟨34, 12⟩, ⟨78, -56⟩] }

/-- A value record that leaves its height open. -/
def openHeight : Value :=
  { x := some 0, advance := some (-5), advanceDevices := [⟨12, -1⟩] }

/-- A value record that leaves its displacement open. -/
def openDisplacement : Value :=
  { y := some 0, advance := some (-5), advanceDevices := [⟨12, -1⟩] }

theorem printed_read_back_adjusted :
    adjustedAnchor.text = "<anchor 0 456 <device NULL> <device 34 12, 78 -56>>" ∧
    ofText? .anchor adjustedAnchor.text = some adjustedAnchor ∧
    openHeight.text = openDisplacement.text ∧
    openHeight.advanceDevices = openDisplacement.advanceDevices := by
  obtain ⟨anchors, -, -, values⟩ := printed_read_back
  have same : openHeight.text = openDisplacement.text := by decide +kernel
  obtain ⟨-, -, -, -, -, devices⟩ := values _ _ same
  exact ⟨by decide +kernel, anchors adjustedAnchor, same, devices⟩

end Feature
end GlyphLayout
