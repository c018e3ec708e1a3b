import GlyphLayout.Text.Lowercase.Tables

/-!
# Lowercase text

Full lowercasing of text.  It is applied character by character, with one exception: a
capital sigma becomes a final sigma where it ends a word, and a small sigma elsewhere.
Names that agree after lowercasing are one name to the rest of the library.
-/

namespace GlyphLayout
namespace Text

/-- One of the inclusive ranges of a table holds the character. -/
def inRanges (ranges : List (Nat × Nat)) (c : Char) : Bool :=
  ranges.any fun (first, last) => first ≤ c.toNat && c.toNat ≤ last

/-- The character is stepped over in the search for a cased neighbour. -/
def isCaseIgnorable (c : Char) : Bool :=
  inRanges caseIgnorableRanges c

/-- The character is cased and is not stepped over. -/
def isCased (c : Char) : Bool :=
  inRanges casedRanges c

/-- A run maps the code point. -/
def CaseRun.maps (run : CaseRun) (code : Nat) : Bool :=
  run.first ≤ code && code ≤ run.last && (code - run.first) % run.stride == 0

/-- The lowercase form of a character on its own. -/
def lowercaseChar (c : Char) : List Char :=
  if c.toNat < 0x80 then
    [c.toLower]
  else if c = '\u0130' then
    ['i', '\u0307']
  else
    match lowercaseRuns.find? (·.maps c.toNat) with
    | some run => [Char.ofNat (run.target + (c.toNat - run.first))]
    | none => [c]

/-- The first character that is not case-ignorable is cased. -/
def startsCased (cs : List Char) : Bool :=
  match cs.dropWhile isCaseIgnorable with
  | c :: _ => isCased c
  | [] => false

/--
The lowercase form of `cs`, where `before` holds the characters in front of it, nearest
first.
-/
def lowercaseFrom (before : List Char) : List Char → List Char
  | [] => []
  | c :: after =>
      let lowered :=
        if c = 'Σ' then
          if startsCased before && !startsCased after then ['ς'] else ['σ']
        else
          lowercaseChar c
      lowered ++ lowercaseFrom (c :: before) after

/-- The lowercase form of a text. -/
def lowercase (s : String) : String :=
  String.ofList (lowercaseFrom [] s.toList)

end Text
end GlyphLayout
