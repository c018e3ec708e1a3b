import GlyphLayout.Lookup.Compilation
import GlyphLayout.Text.Numeral

/-!
# Arguments

The arguments of the command line: the path of a project, the path of the feature file to
write, and options between them.  Arguments are read from left to right, and the first fault
is the one reported; a missing path is noticed at the end.
-/

namespace GlyphLayout
namespace CommandLine

/-- What the arguments ask for. -/
structure Arguments where
  /-- The project, or a font that holds one. -/
  input : String
  /-- The feature file to write. -/
  output : String
  /-- Only errors are shown. -/
  quiet : Bool
  /-- Constructs that a feature file cannot express are left out. -/
  permissive : Bool
  /-- The greatest size of a subtable of pairs. -/
  pairLimit : Option Nat
deriving Repr, DecidableEq

/-- How the arguments want the project converted. -/
def Arguments.options (arguments : Arguments) : Options :=
  { strict := !arguments.permissive, pairLimit := arguments.pairLimit }

/-- The least important level that is shown. -/
def Arguments.leastLevel (arguments : Arguments) : Level :=
  if arguments.quiet then .error else .warn

/-- What is wrong with the arguments. -/
inductive UsageError where
  /-- One of the two paths is missing. -/
  | missingPath
  /-- There is no such option, or there are more than two paths. -/
  | unknownArgument (argument : String)
  /-- An option is given twice. -/
  | repeatedOption (option : String)
  /-- The value of the limit is not a number of 64 bits. -/
  | invalidNumber (value : String)
  /-- A path is empty, or the limit has no value. -/
  | missingValue
  /-- An option that takes no value has one. -/
  | unexpectedValue (option : String)
deriving Repr, DecidableEq

/-- What is wrong with the arguments, in words. -/
def UsageError.message : UsageError → String
  | missingPath => "the paths of the input and of the output are required"
  | unknownArgument argument => s!"unexpected argument '{argument}'"
  | repeatedOption option => s!"'{option}' is given more than once"
  | invalidNumber value => s!"invalid number '{value}'"
  | missingValue => "a value is required"
  | unexpectedValue option => s!"'{option}' takes no value"

/-- Why the arguments do not lead to a conversion. -/
inductive Stop where
  /-- Help is asked for. -/
  | help
  /-- The version is asked for. -/
  | version
  | misuse (error : UsageError)
deriving Repr, DecidableEq

/-- An option that takes no value. -/
inductive Flag where
  | quiet
  | permissive
  | help
  | version
deriving Repr, DecidableEq

namespace Flag

/-- The flag with a long name. -/
def ofLong? : List Char → Option Flag
  | ['q', 'u', 'i', 'e', 't'] => some quiet
  | ['p', 'e', 'r', 'm', 'i', 's', 's', 'i', 'v', 'e'] => some permissive
  | ['h', 'e', 'l', 'p'] => some help
  | ['v', 'e', 'r', 's', 'i', 'o', 'n'] => some version
  | _ => none

/-- The flag with a short name. -/
def ofShort? : Char → Option Flag
  | 'q' => some quiet
  | 'h' => some help
  | 'V' => some version
  | _ => none

/-- The flag as it is written. -/
def text : Flag → String
  | quiet => "--quiet"
  | permissive => "--permissive"
  | help => "--help"
  | version => "--version"

end Flag

/-- The name of the option that sets the limit. -/
def limitOption : String := "--max-pairs"

/-- What an argument is, as its first characters say. -/
inductive Shape where
  /-- Two dashes, after which all arguments are paths. -/
  | separator
  /-- A long option, with the value that an equals sign attaches. -/
  | long (name : List Char) (value : Option String)
  /-- A row of short options. -/
  | short (names : List Char)
  /-- A path, or the value of an option. -/
  | plain
deriving Repr, DecidableEq

/-- What an argument is. -/
def Shape.ofChars : List Char → Shape
  | ['-', '-'] => separator
  | '-' :: '-' :: rest =>
      long (rest.takeWhile (· ≠ '=')) <|
        match rest.dropWhile (· ≠ '=') with
        | [] => none
        | _ :: value => some (String.ofList value)
  | '-' :: c :: rest => short (c :: rest)
  | _ => plain

/-- An argument that is taken in but not checked. -/
inductive Pending where
  /-- The limit, and the argument that gives its value. -/
  | limit (value : Option String)
  | path (value : String)
deriving Repr, DecidableEq

/--
The arguments read so far.  A path or a separate value is checked only once the next argument
has been taken in, so that an unknown option after it is reported first.
-/
structure Reading where
  quiet : Bool := false
  permissive : Bool := false
  pairLimit : Option Nat := none
  /-- The paths that are checked. -/
  paths : List String := []
  pending : Option Pending := none
  /-- Options have ended. -/
  pathsOnly : Bool := false
deriving Repr, DecidableEq

namespace Reading

/-- Takes in the value of the limit. -/
def setLimit (reading : Reading) (value : String) : Except Stop Reading :=
  if reading.pairLimit.isSome then .error (.misuse (.repeatedOption limitOption))
  else
    match Text.bounded64? value with
    | some limit => .ok { reading with pairLimit := some limit }
    | none => .error (.misuse (.invalidNumber value))

/-- Checks the pending argument. -/
def settle (reading : Reading) : Except Stop Reading :=
  let settled := { reading with pending := none }
  match reading.pending with
  | none => .ok settled
  | some (.limit none) => .error (.misuse .missingValue)
  | some (.limit (some value)) => settled.setLimit value
  | some (.path value) =>
      if value.isEmpty then .error (.misuse .missingValue)
      else .ok { settled with paths := settled.paths ++ [value] }

/-- The number of paths, the pending one included. -/
def pathCount (reading : Reading) : Nat :=
  match reading.pending with
  | some (.path _) => reading.paths.length + 1
  | _ => reading.paths.length

/-- Takes in a path. -/
def path (reading : Reading) (value : String) : Except Stop Reading := do
  if reading.pathCount ≥ 2 then .error (.misuse (.unknownArgument value))
  else return { ← reading.settle with pending := some (.path value) }

/-- Takes in an option without a value. -/
def flag (reading : Reading) (flag : Flag) : Except Stop Reading := do
  let settled ← reading.settle
  match flag with
  | .quiet =>
      if settled.quiet then .error (.misuse (.repeatedOption flag.text))
      else return { settled with quiet := true }
  | .permissive =>
      if settled.permissive then .error (.misuse (.repeatedOption flag.text))
      else return { settled with permissive := true }
  | .help => .error .help
  | .version => .error .version

/-- Takes in a long option. -/
def long (reading : Reading) (name : List Char) (value : Option String) : Except Stop Reading := do
  if "--" ++ String.ofList name = limitOption then
    let settled ← reading.settle
    match value with
    | none => return { settled with pending := some (.limit none) }
    | some value => settled.setLimit value
  else
    match Flag.ofLong? name, value with
    | some flag, none => reading.flag flag
    | some flag, some _ => .error (.misuse (.unexpectedValue flag.text))
    | none, _ => .error (.misuse (.unknownArgument ("--" ++ String.ofList name)))

/-- Takes in a short option. -/
def short (reading : Reading) (name : Char) : Except Stop Reading :=
  match Flag.ofShort? name with
  | some flag => reading.flag flag
  | none => .error (.misuse (.unknownArgument (String.ofList ['-', name])))

/-- Takes in an argument. -/
def step (reading : Reading) (argument : String) : Except Stop Reading :=
  if reading.pathsOnly then reading.path argument
  else
    match Shape.ofChars argument.toList with
    | .separator => .ok { reading with pathsOnly := true }
    | .long name value => reading.long name value
    | .short names => names.foldlM short reading
    | .plain =>
        match reading.pending with
        | some (.limit none) => .ok { reading with pending := some (.limit (some argument)) }
        | _ => reading.path argument

/-- What the arguments ask for, once all are taken in. -/
def finish (reading : Reading) : Except Stop Arguments := do
  let settled ← reading.settle
  match settled.paths with
  | [input, output] =>
      return ⟨input, output, settled.quiet, settled.permissive, settled.pairLimit⟩
  | _ => .error (.misuse .missingPath)

end Reading

/-- Reads the arguments of the command line. -/
def Arguments.read (arguments : List String) : Except Stop Arguments :=
  arguments.foldlM Reading.step {} >>= Reading.finish

end CommandLine
end GlyphLayout
