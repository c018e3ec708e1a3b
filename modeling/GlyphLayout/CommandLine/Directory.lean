import GlyphLayout.Error
import GlyphLayout.Map.Ordered
import GlyphLayout.Text.Pieces

/-!
# Directories

A directory of plain files, as far as reading and writing whole files by their paths can show
it.  Relative paths start at the directory, which has no directories in it.  The directories
around it take new files as well, but none of their files is known.
-/

namespace GlyphLayout
namespace CommandLine

/-- The files of a directory by their names. -/
abbrev Directory := OrderedMap String ByteArray

/-- Where a path leads. -/
inductive Place where
  /-- The path is empty. -/
  | nowhere
  /-- The directory, or one around it. -/
  | directory
  /-- A name in the directory, and the steps of the path behind it. -/
  | entry (name : String) (trailing : List (List Char))
  /-- A name in a directory around this one, with the steps of the path behind it. -/
  | outside (trailing : List (List Char))
deriving Repr, DecidableEq

/-- A step of a path that leads from a directory to the one around it. -/
def upward : List Char := ['.', '.']

/-- A step of a path that leads from a directory to itself or to the one around it. -/
def leadsToDirectory (step : List Char) : Bool :=
  step == [] || step == ['.'] || step == upward

/-- Where a path leads. -/
def Place.ofPath (path : String) : Place :=
  let steps := Text.pieces '/' path.toList
  if path.isEmpty then nowhere
  else
    match steps.dropWhile leadsToDirectory with
    | [] => directory
    | name :: trailing =>
        if path.startsWith "/" || (steps.takeWhile leadsToDirectory).contains upward then
          outside trailing
        else
          entry (String.ofList name) trailing

/-- Slashes follow a name, and nothing else does. -/
def endsInSlash (trailing : List (List Char)) : Bool :=
  !trailing.isEmpty && trailing.all (· == [])

namespace Directory

/-- Reads a file. -/
def read (directory : Directory) (path : String) : Except FileError ByteArray :=
  match Place.ofPath path with
  | .nowhere => .error .notFound
  | .directory => .error .isDirectory
  | .entry name trailing =>
      match directory.get? name with
      | none => .error .notFound
      | some contents => if trailing.isEmpty then .ok contents else .error .notDirectory
  | .outside _ => .error .notFound

/--
Writes a file, over the one there is or as a new one.  A slash behind the name asks for a
directory, which cannot be written, whether or not there is a file of the name.
-/
def write (directory : Directory) (path : String) (contents : ByteArray) :
    Except FileError Directory :=
  match Place.ofPath path with
  | .nowhere => .error .notFound
  | .directory => .error .isDirectory
  | .entry name trailing =>
      if trailing.isEmpty then .ok (directory.insert name contents)
      else if endsInSlash trailing then .error .isDirectory
      else if directory.contains name then .error .notDirectory
      else .error .notFound
  | .outside trailing =>
      if trailing.isEmpty then .ok directory
      else if endsInSlash trailing then .error .isDirectory
      else .error .notFound

/-- The files that are new or have new contents. -/
def changes (before after : Directory) : List (String × ByteArray) :=
  after.entries.filter fun file => before.get? file.1 != some file.2

/-- A file that has been written in the directory is read back. -/
theorem read_write
    {before after : Directory} {path name : String} {trailing : List (List Char)}
    {contents : ByteArray}
    (inside : Place.ofPath path = .entry name trailing)
    (written : before.write path contents = .ok after) :
    after.read path = .ok contents := by
  simp only [write, inside] at written
  split at written
  · rename_i last
    cases written
    simp [read, inside, last, OrderedMap.get?_insert]
  · split at written
    · cases written
    · split at written <;> cases written

/-- A file that is written outside leaves the directory as it is. -/
theorem eq_of_write_outside
    {before after : Directory} {path : String} {trailing : List (List Char)}
    {contents : ByteArray}
    (around : Place.ofPath path = .outside trailing)
    (written : before.write path contents = .ok after) :
    after = before := by
  simp only [write, around] at written
  split at written
  · cases written
    rfl
  · split at written <;> cases written

end Directory
end CommandLine
end GlyphLayout
