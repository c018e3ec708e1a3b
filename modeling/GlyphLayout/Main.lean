import GlyphLayout.CommandLine.Program

/-!
# Entry point

The program over the files of the operating system.
-/

open GlyphLayout
open GlyphLayout.CommandLine

/-- An error number of the operating system, which may come negated. -/
def errorNumber (code : UInt32) : Nat :=
  (min code (-code)).toNat

/-- The reason for which the operating system refuses a file. -/
def fileErrorOf : IO.Error → FileError
  | .noFileOrDirectory .. => .notFound
  | .inappropriateType _ code details =>
      match errorNumber code with
      | 20 => .notDirectory
      | 21 => .isDirectory
      | number => .other s!"{details} (os error {number})"
  | .permissionDenied _ code details | .resourceExhausted _ code details
  | .invalidArgument _ code details | .resourceBusy code details
  | .illegalOperation code details | .hardwareFault code details =>
      .other s!"{details} (os error {errorNumber code})"
  | error => .other (toString error)

/-- The files of the operating system. -/
def systemFiles : Files IO where
  read path :=
    try
      return .ok (← IO.FS.readBinFile path)
    catch error => return .error (fileErrorOf error)
  write path text :=
    try
      IO.FS.writeBinFile path text.toUTF8
      return .ok ()
    catch error => return .error (fileErrorOf error)

/-- Runs the program with the arguments of the command line. -/
def main (arguments : List String) : IO UInt32 := do
  let filter ← IO.getEnv "LOG_FILTER"
  let report ← run systemFiles filter arguments
  IO.print report.output
  IO.eprint report.errors
  return report.code.toUInt32
