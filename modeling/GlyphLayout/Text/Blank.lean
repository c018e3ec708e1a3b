/-!
# Blank characters

Two classes of blank characters: the ASCII ones that separate words of a source text, and
the larger class that is trimmed from the entries of a list of code points.
-/

namespace GlyphLayout
namespace Text

/-- A space, or one of the five ASCII characters from tab to carriage return. -/
def isSeparator (c : Char) : Bool :=
  c == ' ' || (0x9 ≤ c.toNat && c.toNat ≤ 0xD)

/-- A character with the property White_Space. -/
def isWhite (c : Char) : Bool :=
  isSeparator c || c.toNat == 0x85 || c.toNat == 0xA0 || c.toNat == 0x1680
    || (0x2000 ≤ c.toNat && c.toNat ≤ 0x200A) || c.toNat == 0x2028 || c.toNat == 0x2029
    || c.toNat == 0x202F || c.toNat == 0x205F || c.toNat == 0x3000

/-- Every separator is white space. -/
theorem isWhite_of_isSeparator
    {c : Char}
    (separator : isSeparator c = true) :
    isWhite c = true := by
  simp [isWhite, separator]

/-- Removes white space from both ends. -/
def trim (cs : List Char) : List Char :=
  ((cs.dropWhile isWhite).reverse.dropWhile isWhite).reverse

end Text
end GlyphLayout
