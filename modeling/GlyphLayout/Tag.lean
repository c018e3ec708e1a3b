/-!
# Tags

A tag names a script, a language or a feature with one to four printable ASCII characters.
A tag is stored without the spaces that pad it to four, so two tags are equal exactly when
their padded forms are.
-/

namespace GlyphLayout

/-- A character that may stand in the name of a tag: printable ASCII other than a space. -/
def isTagChar (c : Char) : Bool :=
  ' ' < c && c < '\x7F'

/-- The text is a tag without padding. -/
def IsTagName (name : String) : Prop :=
  (1 ≤ name.toList.length ∧ name.toList.length ≤ 4) ∧ ∀ c ∈ name.toList, isTagChar c = true

/-- The text is a tag without padding, as a test. -/
def isTagName (name : String) : Bool :=
  1 ≤ name.toList.length && name.toList.length ≤ 4 && name.toList.all isTagChar

theorem isTagName_iff (name : String) : isTagName name = true ↔ IsTagName name := by
  simp [isTagName, IsTagName]

instance (name : String) : Decidable (IsTagName name) :=
  decidable_of_iff (isTagName name = true) (isTagName_iff name)

/-- A tag, without padding. -/
structure Tag where
  /-- The characters of the tag, the padding left out. -/
  name : String
  /-- The characters are those of a tag. -/
  valid : IsTagName name
deriving DecidableEq

/-- Why a text is not a tag. -/
inductive TagError where
  /-- The text has the given number of bytes, which is not one to four. -/
  | length (bytes : Nat)
  /-- The given byte may not stand at the given index. -/
  | byte (value : UInt8) (index : Nat)
deriving Repr, DecidableEq

namespace Tag

instance : LT Tag := ⟨fun first second => first.name < second.name⟩

instance : DecidableLT Tag := fun first second =>
  inferInstanceAs (Decidable (first.name < second.name))

/-- The tag filled up with spaces to four characters. -/
def padded (tag : Tag) : String :=
  tag.name ++ String.ofList (List.replicate (4 - tag.name.toList.length) ' ')

/-- The number of bytes that encode a text. -/
def byteLength : List Char → Nat
  | [] => 0
  | c :: cs => c.utf8Size + byteLength cs

theorem length_le_byteLength (text : List Char) : text.length ≤ byteLength text := by
  induction text with
  | nil => simp [byteLength]
  | cons c cs ih =>
      have positive := Char.utf8Size_pos c
      simp only [byteLength, List.length_cons]
      omega

/-- The first byte of the encoding of a character. -/
def leadByte (c : Char) : UInt8 :=
  (String.utf8EncodeChar c).headD 0

/-- The leading tag characters of a text of one to four bytes that starts with one. -/
theorem isTagName_takeWhile
    {text : List Char}
    (short : byteLength text ≤ 4)
    (starts : text.takeWhile isTagChar ≠ []) :
    IsTagName (String.ofList (text.takeWhile isTagChar)) := by
  have total := length_le_byteLength text
  have part := (List.takeWhile_prefix (l := text) isTagChar).length_le
  have some := List.length_pos_iff.mpr starts
  refine ⟨⟨?_, ?_⟩, ?_⟩
  · rw [String.toList_ofList]
    exact some
  · rw [String.toList_ofList]
    omega
  · rw [String.toList_ofList]
    exact List.all_eq_true.mp List.all_takeWhile

/--
Reads a tag, which may be padded with spaces.  The length counts bytes.  A character may not
stand in a tag if it is not a tag character, unless it belongs to the padding, and the first
byte of the first such character is reported.
-/
def ofChars (text : List Char) : Except TagError Tag :=
  if long : byteLength text = 0 ∨ 4 < byteLength text then
    .error (.length (byteLength text))
  else if starts : text.takeWhile isTagChar ≠ [] then
    match (text.dropWhile isTagChar).dropWhile (· == ' ') with
    | [] =>
        .ok ⟨String.ofList (text.takeWhile isTagChar), isTagName_takeWhile (by omega) starts⟩
    | c :: cs => .error (.byte (leadByte c) (text.length - (c :: cs).length))
  else
    .error (.byte (leadByte (text.headD ' ')) 0)

/-- Reads a tag, which may be padded with spaces. -/
def ofString (text : String) : Except TagError Tag :=
  ofChars text.toList

end Tag

/-- A number in hexadecimal, with capital letters and no padding. -/
def upperHex (value : Nat) : String :=
  String.ofList ((Nat.toDigits 16 value).map Char.toUpper)

/-- What is wrong with the text, in words. -/
def TagError.message : TagError → String
  | .length bytes => s!"Invalid length ({bytes})"
  | .byte value index => s!"Invalid byte 0x{upperHex value.toNat} at index {index}"

end GlyphLayout
