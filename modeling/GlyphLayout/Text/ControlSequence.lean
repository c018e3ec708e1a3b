/-!
# Control sequences

A terminal takes some characters for commands: the control characters, and the sequences that
an escape character opens.  The visible part of a text leaves them out, so that a text from a
file can be shown without steering the terminal.

Tabulators and the ends of lines and pages are visible.  The main statements say that only these
and the characters that print are visible, and that a text of nothing else stays as it is.
-/

namespace GlyphLayout
namespace Text

/-- The control characters that lay a text out. -/
def isLayout (c : Char) : Bool :=
  c = '\t' || c = '\n' || c = '\x0C' || c = '\r'

/-- The characters that may be shown: those of the layout, and all that print. -/
def isShown (c : Char) : Bool :=
  isLayout c || (' ' ≤ c && c ≠ '\x7F')

/-- The characters that lengthen the opening of a sequence. -/
def isIntermediate (c : Char) : Bool := ' ' ≤ c && c ≤ '/'

/-- The characters of which the parameters of a sequence consist. -/
def isParameter (c : Char) : Bool := '0' ≤ c && c ≤ '?'

/-- The characters that complete a sequence. -/
def isFinal (c : Char) : Bool := '@' ≤ c && c ≤ '~'

/-- The byte that ends a string within a sequence is one of those that encode the character. -/
def endsString (c : Char) : Bool := (String.utf8EncodeChar c).contains 0x9C

/-- The part of a control sequence that a terminal reads. -/
inductive SequencePart where
  /-- The text outside sequences. -/
  | outside
  /-- What follows an escape character. -/
  | escape
  /-- What follows the intermediate characters behind an escape character. -/
  | escapeIntermediate
  /-- The parameters of a command that a bracket opens. -/
  | control
  /-- What follows the opening of a command to a device. -/
  | device
  /-- The parameters of a command to a device. -/
  | deviceParameter
  /-- The intermediate characters of a command to a device. -/
  | deviceIntermediate
  /-- A string that lasts up to its terminating byte. -/
  | string
  /-- A command to the operating system, which lasts up to a bell. -/
  | systemCommand
deriving Repr, DecidableEq

namespace SequencePart

/-- The part that follows an escape character and one more character. -/
def afterEscape (c : Char) : SequencePart :=
  if isIntermediate c then escapeIntermediate
  else
    match c with
    | '[' => control
    | ']' => systemCommand
    | 'P' => device
    | 'X' | '^' | '_' => string
    | _ => if isParameter c || isFinal c then outside else escape

/-- The part that follows a character.  An escape character opens a sequence wherever it is. -/
def step (part : SequencePart) (c : Char) : SequencePart :=
  if c = '\x1B' then escape
  else if c = '\x18' || c = '\x1A' then outside
  else
    match part with
    | outside => outside
    | escape => afterEscape c
    | escapeIntermediate => if isParameter c || isFinal c then outside else escapeIntermediate
    | control => if isFinal c then outside else control
    | device =>
        if isIntermediate c then deviceIntermediate
        else if isParameter c then deviceParameter
        else if isFinal c then string
        else device
    | deviceParameter =>
        if isIntermediate c then deviceIntermediate
        else if '<' ≤ c && c ≤ '~' then string
        else deviceParameter
    | deviceIntermediate =>
        if isParameter c || isFinal c then string else deviceIntermediate
    | string => if endsString c then outside else string
    | systemCommand => if c = '\x07' then outside else systemCommand

/-- Whether a character of the part is visible. -/
def shows : SequencePart → Char → Bool
  | outside, c => isShown c
  | escape, c | escapeIntermediate, c | control, c => isLayout c
  | _, _ => false

/-- What is visible within a sequence may be shown outside of one. -/
theorem isShown_of_shows
    {part : SequencePart} {c : Char}
    (visible : part.shows c = true) :
    isShown c = true := by
  cases part <;> simp_all [shows, isShown]

end SequencePart

/--
The visible part of the remaining text, where `current` says what is visible and `held` is the
part to go on with.  The two differ behind a visible character in the middle of a sequence: what
follows it shows like text outside, until a character that is not visible goes on with the
sequence.  A character beyond ASCII in between gives the sequence up.
-/
def visibleFrom (held current : SequencePart) : List Char → List Char
  | [] => []
  | c :: cs =>
      if current.shows c then
        c :: visibleFrom (if c ≤ '\x7F' then held else .outside) .outside cs
      else visibleFrom (held.step c) (held.step c) cs

/-- The visible part of a text. -/
def visible (s : String) : String :=
  String.ofList (visibleFrom .outside .outside s.toList)

/-- Whatever is visible may be shown. -/
theorem isShown_of_mem_visibleFrom
    (held current : SequencePart) (cs : List Char) :
    ∀ c ∈ visibleFrom held current cs, isShown c = true := by
  induction cs generalizing held current with
  | nil => simp [visibleFrom]
  | cons c cs ih =>
      intro x member
      rw [visibleFrom] at member
      split at member
      case isTrue shown =>
        rcases List.mem_cons.mp member with rfl | member
        · exact SequencePart.isShown_of_shows shown
        · exact ih _ _ x member
      case isFalse => exact ih _ _ x member

/-- A text that may be shown is visible as a whole. -/
theorem visibleFrom_eq_self
    (held : SequencePart) (cs : List Char)
    (shown : ∀ c ∈ cs, isShown c = true) :
    visibleFrom held .outside cs = cs := by
  induction cs generalizing held with
  | nil => rfl
  | cons c cs ih =>
      obtain ⟨first, rest⟩ := List.forall_mem_cons.mp shown
      simp [visibleFrom, SequencePart.shows, first, ih _ rest]

/-- Nothing of the visible part is left out when it is shown again. -/
theorem visible_visible (s : String) : visible (visible s) = visible s := by
  simp only [visible, String.toList_ofList]
  rw [visibleFrom_eq_self .outside _ (isShown_of_mem_visibleFrom _ _ _)]

end Text
end GlyphLayout
