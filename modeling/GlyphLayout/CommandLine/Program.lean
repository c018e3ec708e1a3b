import GlyphLayout.CommandLine.Arguments
import GlyphLayout.CommandLine.Directory
import GlyphLayout.Font.Project
import GlyphLayout.Text.ControlSequence

/-!
# The program

What the command line program does, over any way of reading and writing files: it reads the
project, writes the feature file, and shows the notices of the conversion up to a level.
-/

namespace GlyphLayout
namespace CommandLine

/-- A way of reading and writing files. -/
structure Files (m : Type → Type) where
  read : String → m (Except FileError ByteArray)
  write : String → String → m (Except FileError Unit)

/-- Files in a directory that is held as a value. -/
def Directory.files : Files (StateM Directory) where
  read path := fun directory => (directory.read path, directory)
  write path text := fun directory =>
    match directory.write path text.toUTF8 with
    | .ok after => (.ok (), after)
    | .error cause => (.error cause, directory)

/-- The name of the program. -/
def programName : String := "volt2fea"

/-- The version of the program. -/
def programVersion : String := "0.1.0"

/-- How the program is called. -/
def usage : String :=
  s!"Usage: {programName} [-q|--quiet] [--permissive] [--max-pairs <N>] <INPUT> <OUTPUT>\n"

/-- The rank of the least important notices that a level lets through. -/
def rankOfLevel? (name : String) : Option Nat :=
  match name.toLower with
  | "off" => some 0
  | "error" => some Level.error.rank
  | "warn" => some Level.warn.rank
  | "info" => some Level.info.rank
  | "debug" => some Level.debug.rank
  | "trace" => some Level.trace.rank
  | _ => none

/-- The rank that a filter sets: a level, which may be meant for the program by its name. -/
def rankOfFilter? (filter : String) : Option Nat :=
  match Text.pieces '=' filter.toList with
  | [level] => rankOfLevel? (String.ofList level)
  | [name, level] =>
      if String.ofList name = programName then rankOfLevel? (String.ofList level) else none
  | _ => none

/-- The rank of the least important notices that are shown.  A filter goes before a flag. -/
def threshold (filter : Option String) (arguments : Arguments) : Nat :=
  (filter.bind rankOfFilter?).getD arguments.leastLevel.rank

variable {m : Type → Type} [Monad m]

/-- Converts the project at the one path and writes the feature file to the other. -/
def perform (files : Files m) (arguments : Arguments) : m (Outcome Unit) := do
  let contents ← files.read arguments.input
  let converted := convertFile arguments.input contents arguments.options
  match converted.result with
  | .error error => return ⟨converted.log, .error error⟩
  | .ok text =>
      let written ← files.write arguments.output text
      return converted >>= fun _ =>
        match written with
        | .ok () => Outcome.tell (.written arguments.output)
        | .error cause => Outcome.fail (.file arguments.output cause)

/-- All that there is to report: the notices, and the error as the last one. -/
def notices (outcome : Outcome Unit) : List Notice :=
  match outcome.result with
  | .ok () => outcome.log
  | .error error => outcome.log ++ [.failed error]

/-- What a run of the program leaves behind, files apart. -/
structure Report where
  /-- Zero for success, one for a failed conversion, two for a misuse. -/
  code : UInt8
  /-- The text on the standard output. -/
  output : String
  /-- The text on the standard error output. -/
  errors : String
deriving Repr, DecidableEq

/-- The line of the log for a notice.  Its names come from the project, so only the visible part
of it is written. -/
def logLine (notice : Notice) : String :=
  Text.visible (notice.line ++ "\n")

/-- The report on a conversion. -/
def Report.ofOutcome (threshold : Nat) (outcome : Outcome Unit) : Report where
  code := if outcome.result.isOk then 0 else 1
  output := ""
  errors := String.join ((Outcome.shown threshold (notices outcome)).map logLine)

/-- Runs the program. -/
def run (files : Files m) (filter : Option String) (arguments : List String) : m Report :=
  match Arguments.read arguments with
  | .error .help => return ⟨0, usage, ""⟩
  | .error .version => return ⟨0, s!"{programName} {programVersion}\n", ""⟩
  | .error (.misuse error) => return ⟨2, "", s!"error: {error.message}\n\n{usage}"⟩
  | .ok arguments => do
      let outcome ← perform files arguments
      return Report.ofOutcome (threshold filter arguments) outcome

end CommandLine
end GlyphLayout
