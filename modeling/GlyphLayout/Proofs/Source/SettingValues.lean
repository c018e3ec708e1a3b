import GlyphLayout.Proofs.Source.Joining
import GlyphLayout.Proofs.Source.Layout

/-!
# Values of settings

Behind the name of a setting come its values.  A numeral of at most 32 bits is a value, and one of
at most 64 bits is refused if it is no value.  A wider numeral ends the setting: with a sign it is
refused then, but without one it is taken for the name of another setting.
-/

namespace GlyphLayout

/-! ## Decimal numerals -/

namespace Text

/-- What stands in front of the digits of a numeral. -/
inductive NumeralSign where
  | absent
  | plus
  | minus
deriving DecidableEq

/-- The characters of a sign. -/
def NumeralSign.chars : NumeralSign → List Char
  | absent => []
  | plus => ['+']
  | minus => ['-']

/-- Decimal digits, at least one, and what stands in front of them. -/
structure DecimalNumeral where
  sign : NumeralSign
  digits : List Char
  filled : digits ≠ []
  areDigits : ∀ c ∈ digits, c.isDigit

namespace DecimalNumeral

variable (numeral : DecimalNumeral)

/-- The numeral as it is written. -/
def text : String :=
  String.ofList (numeral.sign.chars ++ numeral.digits)

/-- The integer that the numeral stands for. -/
def value : Int :=
  match numeral.sign with
  | .absent | .plus => Nat.ofDigitChars 10 numeral.digits 0
  | .minus => -(Nat.ofDigitChars 10 numeral.digits 0 : Int)

/-- The value has at most 32 bits with its sign. -/
def IsShort : Prop :=
  -0x80000000 ≤ numeral.value ∧ numeral.value < 0x80000000

/-- The value has at most 64 bits with its sign. -/
def IsLong : Prop :=
  -0x8000000000000000 ≤ numeral.value ∧ numeral.value < 0x8000000000000000

/-- The numeral opens a setting of its own: it has no sign and a value of more than 64 bits. -/
def OpensSetting : Prop :=
  numeral.sign = .absent ∧ ¬numeral.IsLong

/-- The numeral is neither a value of a setting nor a setting of its own. -/
def IsRefused : Prop :=
  ¬numeral.IsShort ∧ ¬numeral.OpensSetting

instance : Decidable numeral.IsShort :=
  inferInstanceAs (Decidable (_ ∧ _))

instance : Decidable numeral.IsLong :=
  inferInstanceAs (Decidable (_ ∧ _))

instance : Decidable numeral.OpensSetting :=
  inferInstanceAs (Decidable (_ ∧ _))

instance : Decidable numeral.IsRefused :=
  inferInstanceAs (Decidable (_ ∧ _))

theorem IsShort.isLong {numeral : DecimalNumeral} (short : numeral.IsShort) : numeral.IsLong := by
  unfold IsShort at short
  unfold IsLong
  omega

theorem IsShort.not_opensSetting {numeral : DecimalNumeral} (short : numeral.IsShort) :
    ¬numeral.OpensSetting :=
  fun opens => opens.2 short.isLong

/-- A numeral is a value, or opens a setting of its own, or is refused. -/
theorem isShort_or_opensSetting_or_isRefused :
    numeral.IsShort ∨ numeral.OpensSetting ∨ numeral.IsRefused := by
  by_cases short : numeral.IsShort
  · exact .inl short
  by_cases opens : numeral.OpensSetting
  · exact .inr (.inl opens)
  · exact .inr (.inr ⟨short, opens⟩)

theorem integer?_text : integer? numeral.text.toList = some numeral.value := by
  obtain ⟨sign, digits, filled, areDigits⟩ := numeral
  have read := digits?_of_isDigit filled areDigits
  rw [text, String.toList_ofList]
  cases sign with
  | absent => exact integer?_of_digits? read
  | plus => simp [NumeralSign.chars, integer?, natural?, value, read]
  | minus => simp [NumeralSign.chars, integer?, value, read]

theorem isNumeral_text : isNumeral numeral.text = decide numeral.IsLong := by
  rw [isNumeral, integer?_text]
  exact (Bool.decide_and ..).symm

theorem int32?_text_of_isShort {numeral : DecimalNumeral} (short : numeral.IsShort) :
    int32? numeral.text = some (Int32.ofInt numeral.value) := by
  rw [int32?, integer?_text]
  exact if_pos short

theorem int32?_text_of_not_isShort {numeral : DecimalNumeral} (wide : ¬numeral.IsShort) :
    int32? numeral.text = none := by
  rw [int32?, integer?_text]
  exact if_neg wide

theorem toInt_of_isShort {numeral : DecimalNumeral} (short : numeral.IsShort) :
    (Int32.ofInt numeral.value).toInt = numeral.value :=
  Int32.toInt_ofInt_of_le (by have := short.1; omega) (by have := short.2; omega)

end DecimalNumeral
end Text

namespace Source

open Text (DecimalNumeral)

/-- No numeral is one of the words that open something else. -/
theorem text_not_mem_openingWords (numeral : DecimalNumeral) :
    numeral.text ∉ openingWords := by
  have notNumerals : ∀ mark ∈ openingWords, Text.integer? mark.toList = none := by decide
  intro opens
  have none := notNumerals _ opens
  rw [numeral.integer?_text] at none
  cases none

/-- A numeral can be the name of a setting exactly if it has no sign. -/
theorem all_isSettingChar_text (numeral : DecimalNumeral) :
    numeral.text.toList.all isSettingChar = decide (numeral.sign = .absent) := by
  obtain ⟨sign, digits, filled, areDigits⟩ := numeral
  have all : digits.all isSettingChar = true :=
    List.all_eq_true.mpr fun c member => by simp [isSettingChar, areDigits c member]
  rw [DecimalNumeral.text, String.toList_ofList, List.all_append, all]
  cases sign <;> rfl

/-! ## Settings in a row -/

/--
What comes of the numerals behind the name of a setting: its values, and the settings behind it,
or the problem with the first numeral that is refused.
-/
def readNumerals : List DecimalNumeral → Except Problem (List Int32 × List Setting)
  | [] => .ok ([], [])
  | numeral :: rest =>
      if numeral.IsShort then
        (readNumerals rest).map fun read => (.ofInt numeral.value :: read.1, read.2)
      else if numeral.IsLong then
        .error (.expected "a setting value" (some (.word numeral.text)))
      else if numeral.sign = .absent then
        (readNumerals rest).map fun read => ([], ⟨numeral.text, read.1, .start⟩ :: read.2)
      else
        .error (.expected "a definition" (some (.word numeral.text)))

section Readings

theorem except_map_eq_ok_iff
    {ε α β : Type} {f : α → β} {result : Except ε α} {value : β} :
    result.map f = .ok value ↔ ∃ found, result = .ok found ∧ f found = value := by
  cases result <;> simp [Except.map]

variable {numeral : DecimalNumeral} {numerals : List DecimalNumeral}

theorem readNumerals_of_isShort
    (short : numeral.IsShort)
    (rest : List DecimalNumeral) :
    readNumerals (numeral :: rest) =
      (readNumerals rest).map fun read => (.ofInt numeral.value :: read.1, read.2) :=
  if_pos short

theorem readNumerals_of_opensSetting
    (opens : numeral.OpensSetting)
    (rest : List DecimalNumeral) :
    readNumerals (numeral :: rest) =
      (readNumerals rest).map fun read => ([], ⟨numeral.text, read.1, .start⟩ :: read.2) := by
  have wide : ¬numeral.IsShort := fun short => short.not_opensSetting opens
  rw [readNumerals, if_neg wide, if_neg opens.2, if_pos opens.1]

theorem readNumerals_of_isRefused
    (refused : numeral.IsRefused)
    (rest : List DecimalNumeral) :
    ∃ problem, readNumerals (numeral :: rest) = .error problem := by
  rw [readNumerals, if_neg refused.1]
  by_cases long : numeral.IsLong
  · exact ⟨_, if_pos long⟩
  · have signed : numeral.sign ≠ .absent := fun absent => refused.2 ⟨absent, long⟩
    rw [if_neg long, if_neg signed]
    exact ⟨_, rfl⟩

/-- Numerals come to nothing exactly if one of them is refused. -/
theorem readNumerals_eq_error_iff :
    (∃ problem, readNumerals numerals = .error problem) ↔
      ∃ numeral ∈ numerals, numeral.IsRefused := by
  induction numerals with
  | nil => simp [readNumerals]
  | cons numeral rest ih =>
      rw [List.exists_mem_cons_iff, ← ih]
      rcases numeral.isShort_or_opensSetting_or_isRefused with short | opens | refused
      · have taken : ¬numeral.IsRefused := fun refused => refused.1 short
        rw [readNumerals_of_isShort short rest]
        cases readNumerals rest <;> simp [Except.map, taken]
      · have taken : ¬numeral.IsRefused := fun refused => refused.2 opens
        rw [readNumerals_of_opensSetting opens rest]
        cases readNumerals rest <;> simp [Except.map, taken]
      · exact iff_of_true (readNumerals_of_isRefused refused rest) (.inl refused)

/-- No further setting is read exactly if no numeral opens one, and all are values then. -/
theorem readNumerals_values
    {values : List Int32}
    {others : List Setting}
    (read : readNumerals numerals = .ok (values, others)) :
    (others = [] ↔ ∀ numeral ∈ numerals, ¬numeral.OpensSetting) ∧
      (others = [] → values.map Int32.toInt = numerals.map DecimalNumeral.value) := by
  induction numerals generalizing values others with
  | nil =>
      cases read
      simp
  | cons numeral rest ih =>
      rw [List.forall_mem_cons]
      rcases numeral.isShort_or_opensSetting_or_isRefused with short | opens | refused
      · rw [readNumerals_of_isShort short rest] at read
        obtain ⟨⟨more, _⟩, later, made⟩ := except_map_eq_ok_iff.mp read
        cases made
        obtain ⟨none, same⟩ := ih later
        refine ⟨by simp [short.not_opensSetting, none], fun empty => ?_⟩
        rw [List.map_cons, List.map_cons, same empty, DecimalNumeral.toInt_of_isShort short]
      · rw [readNumerals_of_opensSetting opens rest] at read
        obtain ⟨_, -, made⟩ := except_map_eq_ok_iff.mp read
        cases made
        simp [opens]
      · obtain ⟨problem, failed⟩ := readNumerals_of_isRefused refused rest
        rw [failed] at read
        cases read

end Readings

/-- The words of some numerals. -/
def numeralWords (numerals : List DecimalNumeral) : List Lexeme :=
  numerals.map fun numeral => .word numeral.text

namespace Parser

open Remaining (ofLexemes)

variable {α : Type}

/-- Looks for one more item of a list. -/
abbrev listStep (item : Parser (Option α)) (found : List α) : Parser (Option (List α)) := do
  return (← item).map (· :: found)

/-- A list goes on behind each of its items, if every item takes a token. -/
theorem iterate_listStep
    {item : Parser (Option α)}
    (takes : ∀ remaining value rest, item remaining = .ok (some value, rest) →
      rest.size < remaining.size)
    (found : List α)
    (remaining : Remaining) :
    iterate (listStep item) found remaining =
      match item remaining with
      | .error failure => .error failure
      | .ok (none, rest) => .ok (found, rest)
      | .ok (some value, rest) => iterate (listStep item) (value :: found) rest := by
  rw [iterate, listStep, bind_apply]
  cases ran : item remaining with
  | error failure => rfl
  | ok read =>
      obtain ⟨_ | value, rest⟩ := read
      · rfl
      · exact if_pos (takes _ _ _ ran)

/-- Reads the next value of a setting, if one comes next. -/
abbrev settingValue? : Parser (Option Int32) :=
  numeral? "a setting value" Text.int32?

/-- What is read behind some values of a setting, and behind the statements in front of it. -/
def restOfSetting
    (name : String)
    (values : List Int32)
    (found : List Statement)
    (remaining : Remaining) :
    Except Failure (List Statement × Remaining) :=
  iterate (listStep settingValue?) values remaining >>= fun read =>
    iterate (listStep statement?) (.setting ⟨name, read.1.reverse, .start⟩ :: found) read.2

/-- A word that opens nothing else opens a setting, or is refused. -/
theorem statement?_word
    {name : String}
    (free : name ∉ openingWords)
    (rest : List Lexeme) :
    statement? (ofLexemes (.word name :: rest)) =
      (setting name .start (ofLexemes rest) >>= fun read =>
        .ok (some (.setting read.1), read.2)) := by
  have notEnd : name ≠ "END" := by
    rintro rfl
    exact free (by decide)
  have opening : opening? (ofLexemes (.word name :: rest)) =
      .ok (some (name, .start), ofLexemes rest) := rfl
  rw [statement?_eq, bind_apply, opening, ok_bind]
  simp only [notEnd, if_false, statement_of_free free, map_apply]
  cases setting name .start (ofLexemes rest) <;> rfl

variable {name : String} {values : List Int32} {found : List Statement} {rest : List Lexeme}

/-- A word that opens nothing else and is made of the right characters opens a setting. -/
theorem iterate_statement?_setting
    (free : name ∉ openingWords)
    (characters : name.toList.all isSettingChar = true) :
    iterate (listStep statement?) found (ofLexemes (.word name :: rest)) =
      restOfSetting name [] found (ofLexemes rest) := by
  rw [iterate_listStep fun _ _ _ => statement?_takes, statement?_word free, setting,
    if_pos characters, bind_apply, many, bind_apply, restOfSetting]
  cases iterate (listStep settingValue?) [] (ofLexemes rest) <;> rfl

/-- A word that opens nothing and has another character is refused. -/
theorem iterate_statement?_refused
    (free : name ∉ openingWords)
    (characters : name.toList.all isSettingChar = false) :
    iterate (listStep statement?) found (ofLexemes (.word name :: rest)) =
      .error ⟨.expected "a definition" (some (.word name)), some .start⟩ := by
  rw [iterate_listStep fun _ _ _ => statement?_takes, statement?_word free, setting,
    if_neg (by simp [characters])]
  rfl

variable {numeral : DecimalNumeral}

theorem restOfSetting_of_isShort (short : numeral.IsShort) :
    restOfSetting name values found (ofLexemes (.word numeral.text :: rest)) =
      restOfSetting name (.ofInt numeral.value :: values) found (ofLexemes rest) := by
  have isNumeral : Text.isNumeral numeral.text = true :=
    numeral.isNumeral_text.trans (decide_eq_true short.isLong)
  rw [restOfSetting, iterate_listStep fun _ _ _ => numeral?_takes,
    numeral?_word isNumeral (DecimalNumeral.int32?_text_of_isShort short)]
  rfl

theorem restOfSetting_of_isLong (wide : ¬numeral.IsShort) (long : numeral.IsLong) :
    restOfSetting name values found (ofLexemes (.word numeral.text :: rest)) =
      .error ⟨.expected "a setting value" (some (.word numeral.text)), some .start⟩ := by
  have isNumeral : Text.isNumeral numeral.text = true :=
    numeral.isNumeral_text.trans (decide_eq_true long)
  rw [restOfSetting, iterate_listStep fun _ _ _ => numeral?_takes,
    numeral?_refused isNumeral (DecimalNumeral.int32?_text_of_not_isShort wide)]
  rfl

/-- A setting ends in front of what is no numeral of at most 64 bits. -/
theorem restOfSetting_past (past : Past numeralWord? rest) :
    restOfSetting name values found (ofLexemes rest) =
      iterate (listStep statement?) (.setting ⟨name, values.reverse, .start⟩ :: found)
        (ofLexemes rest) := by
  rw [restOfSetting, iterate_listStep fun _ _ _ => numeral?_takes, numeral?_past past]
  rfl

theorem past_of_not_isLong (huge : ¬numeral.IsLong) :
    Past numeralWord? (.word numeral.text :: rest) := by
  have notNumeral : Text.isNumeral numeral.text = false :=
    numeral.isNumeral_text.trans (decide_eq_false huge)
  simp [numeralWord?, notNumeral]

/-- Numerals behind a setting go on with it or open further ones, or the first other one fails. -/
theorem restOfSetting_numeralWords
    (numerals : List DecimalNumeral)
    (name : String)
    (values : List Int32)
    (found : List Statement) :
    restOfSetting name values found (ofLexemes (numeralWords numerals)) =
      match readNumerals numerals with
      | .ok (more, others) =>
          .ok (((⟨name, values.reverse ++ more, .start⟩ :: others).map Statement.setting).reverse
            ++ found, ofLexemes [])
      | .error problem => .error ⟨problem, some .start⟩ := by
  -- A numeral that opens a setting starts over with its own name and without values.
  induction numerals generalizing name values found with
  | nil =>
      have past : Past numeralWord? [] := fun _ none => nomatch none
      rw [numeralWords, List.map_nil, restOfSetting_past past,
        iterate_listStep fun _ _ _ => statement?_takes]
      simp [readNumerals]
      rfl
  | cons numeral rest ih =>
      rw [numeralWords, List.map_cons, readNumerals, ← numeralWords]
      by_cases short : numeral.IsShort
      · rw [restOfSetting_of_isShort short, ih, if_pos short]
        cases readNumerals rest <;> simp [Except.map]
      rw [if_neg short]
      by_cases long : numeral.IsLong
      · rw [restOfSetting_of_isLong short long, if_pos long]
      rw [if_neg long, restOfSetting_past (past_of_not_isLong long)]
      have free := text_not_mem_openingWords numeral
      have characters := all_isSettingChar_text numeral
      by_cases absent : numeral.sign = .absent
      · rw [iterate_statement?_setting free (by simp [characters, absent]), ih, if_pos absent]
        cases readNumerals rest <;> simp [Except.map]
      · rw [iterate_statement?_refused free (by simp [characters, absent]), if_neg absent]

end Parser

/-- The word may be the name of a setting: it has the right characters and opens nothing else. -/
def IsSettingName (name : String) : Prop :=
  name.toList.all isSettingChar = true ∧ name ∉ openingWords

instance (name : String) : Decidable (IsSettingName name) :=
  inferInstanceAs (Decidable (_ ∧ _))

/-- What comes of the name of a setting with numerals behind it. -/
theorem readLexemes_setting
    {name : String}
    (named : IsSettingName name)
    (numerals : List DecimalNumeral) :
    readLexemes (.word name :: numeralWords numerals) =
      (readNumerals numerals).map fun read =>
        (⟨name, read.1, .start⟩ :: read.2).map Statement.setting := by
  have rest := Parser.restOfSetting_numeralWords numerals name [] []
  rw [readLexemes, Parser.statements, Parser.many, Parser.bind_apply,
    Parser.iterate_statement?_setting named.2 named.1, rest]
  cases readNumerals numerals with
  | error problem => rfl
  | ok read => simp [Except.map]

/-! ## The values as they were written -/

/--
A source that is read is one setting with the given name and values, and a source with a value of
more than 32 bits is not read.
-/
structure ReadsAsSetting
    (name : String)
    (numerals : List DecimalNumeral)
    (result : Except SyntaxError (List Statement)) : Prop where
  single : ∀ statements, result = .ok statements →
    ∃ values location, statements = [.setting ⟨name, values, location⟩] ∧
      values.map Int32.toInt = numerals.map DecimalNumeral.value
  wide : (∃ numeral ∈ numerals, ¬numeral.IsShort) → ∃ error, result = .error error

theorem eq_setting_of_map_unplaced
    {statements : List Statement}
    {setting : Setting}
    (same : statements.map Statement.unplaced = [.setting setting]) :
    ∃ location, statements = [.setting { setting with location := location }] := by
  obtain ⟨statement, rfl, unplaced⟩ := List.map_eq_singleton_iff.mp same
  cases statement with
  | setting definition =>
      cases unplaced
      exact ⟨definition.location, rfl⟩
  | _ => cases unplaced

theorem exists_error_of_readLexemes
    {text : String} {problem : Problem}
    (read : readLexemes (lexemesOf text.toList) = .error problem) :
    ∃ location, parse text = .error ⟨problem, location⟩ := by
  rw [← withoutPlaces_parse] at read
  cases parsed : parse text with
  | ok statements =>
      rw [parsed] at read
      cases read
  | error error =>
      rw [parsed] at read
      cases read
      exact ⟨error.location, rfl⟩

/-- What is read is one setting with these values if no numeral opens a setting of its own. -/
theorem readsAsSetting_ok_iff
    {name : String}
    {numerals : List DecimalNumeral}
    {statements : List Statement}
    {values : List Int32}
    {others : List Setting}
    (outcome : readNumerals numerals = .ok (values, others))
    (same : statements.map Statement.unplaced =
      .setting ⟨name, values, .start⟩ :: others.map Statement.setting) :
    ReadsAsSetting name numerals (.ok statements) ↔
      ∀ numeral ∈ numerals, ¬numeral.OpensSetting := by
  obtain ⟨alone, inOrder⟩ := readNumerals_values outcome
  rw [← alone]
  constructor
  · intro reads
    obtain ⟨_, _, rfl, -⟩ := reads.single _ rfl
    exact List.map_eq_nil_iff.mp (List.cons.inj same).2.symm
  · rintro rfl
    refine ⟨?_, fun ⟨numeral, member, wide⟩ => ?_⟩
    · rintro _ ⟨⟩
      obtain ⟨location, rfl⟩ := eq_setting_of_map_unplaced same
      exact ⟨values, location, rfl, inOrder rfl⟩
    · have refused : numeral.IsRefused := ⟨wide, alone.mp rfl numeral member⟩
      obtain ⟨problem, failed⟩ := readNumerals_eq_error_iff.mpr ⟨numeral, member, refused⟩
      rw [failed] at outcome
      cases outcome

/--
The numerals behind the name of a setting are all of its values, or the source is refused, exactly
if none of them opens a setting of its own or one is refused.  The source is refused exactly if one
of them is.
-/
theorem parse_readsAsSetting_iff
    {text name : String}
    {numerals : List DecimalNumeral}
    (named : IsSettingName name)
    (written : lexemesOf text.toList = .word name :: numeralWords numerals) :
    (ReadsAsSetting name numerals (parse text) ↔
        (∀ numeral ∈ numerals, ¬numeral.OpensSetting) ∨ ∃ numeral ∈ numerals, numeral.IsRefused)
      ∧ ((∃ error, parse text = .error error) ↔ ∃ numeral ∈ numerals, numeral.IsRefused) := by
  have read := readLexemes_setting named numerals
  rw [← written] at read
  rw [← readNumerals_eq_error_iff]
  cases outcome : readNumerals numerals with
  | error problem =>
      rw [outcome] at read
      obtain ⟨location, failed⟩ := exists_error_of_readLexemes read
      have fails : ReadsAsSetting name numerals (.error ⟨problem, location⟩) :=
        ⟨nofun, fun _ => ⟨_, rfl⟩⟩
      simp [failed, fails]
  | ok pair =>
      rw [outcome] at read
      obtain ⟨statements, parsed, same⟩ := exists_parse_of_readLexemes read
      simp [parsed, readsAsSetting_ok_iff outcome same]

/-- Two numerals that are values. -/
def gridSizes : List DecimalNumeral :=
  [⟨.absent, ['2', '0'], by simp, by simp⟩, ⟨.minus, ['4'], by simp, by simp⟩]

theorem parse_readsAsSetting_iff_gridSizes :
    IsSettingName "GRID_PPEM"
      ∧ lexemesOf "GRID_PPEM 20 -4\n".toList = .word "GRID_PPEM" :: numeralWords gridSizes
      ∧ ReadsAsSetting "GRID_PPEM" gridSizes (parse "GRID_PPEM 20 -4\n")
      ∧ ¬∃ error, parse "GRID_PPEM 20 -4\n" = .error error := by
  have named : IsSettingName "GRID_PPEM" := by decide
  have written : lexemesOf "GRID_PPEM 20 -4\n".toList =
      .word "GRID_PPEM" :: numeralWords gridSizes := by
    decide +kernel
  obtain ⟨reads, refused⟩ := parse_readsAsSetting_iff named written
  exact ⟨named, written, reads.mpr (.inl (by decide)), mt refused.mp (by decide)⟩

/-- A numeral of twenty digits, which no integer of 64 bits is wide enough for. -/
def twentyDigits : DecimalNumeral :=
  ⟨.absent, List.replicate 20 '9', by simp, by simp⟩

/-- A value without a sign is a setting of its own if it is wide enough. -/
theorem exists_not_readsAsSetting :
    ¬ ∀ (text name : String) (numerals : List DecimalNumeral),
      IsSettingName name → lexemesOf text.toList = .word name :: numeralWords numerals →
        ReadsAsSetting name numerals (parse text) := by
  intro always
  have reads := always "GRID_PPEM 99999999999999999999" "GRID_PPEM" [twentyDigits] (by decide)
    (by decide +kernel)
  obtain ⟨error, failed⟩ := reads.wide ⟨twentyDigits, List.mem_cons_self .., by decide⟩
  have read : (parse "GRID_PPEM 99999999999999999999").isOk = true := by decide +kernel
  rw [failed] at read
  cases read

end Source
end GlyphLayout
