import Stylesheet.Text.Basic

/-!
# Paths

Paths are texts with `/` between their parts.  Empty parts and `.` carry no
meaning, except for a `.` at the start of a relative path, which is kept.
-/

namespace Stylesheet.Path

def isAbsolute (path : Text) : Bool :=
  path.head? == some '/'

/-- A part that names nothing. -/
def isIdle (part : Text) : Bool :=
  part.isEmpty || part == ['.']

/-- A part that leads up. -/
def isUp (part : Text) : Bool :=
  part == ['.', '.']

/-- A part that names a file or directory. -/
def isName (part : Text) : Bool :=
  !isIdle part && !isUp part && !part.contains '/'

/-- The parts that count when paths are compared. -/
def parts (path : Text) : List Text :=
  match path.splitAt '/' with
  | [] => []
  | first :: rest =>
      if isAbsolute path then ['/'] :: rest.filter (!isIdle ·)
      else if first == ['.'] then first :: rest.filter (!isIdle ·)
      else (first :: rest).filter (!isIdle ·)

/-- Two spellings of a path, up to idle parts. -/
def same (first second : Text) : Bool :=
  parts first == parts second

/-- A path below a directory; an absolute path stands for itself. -/
def join (directory path : Text) : Text :=
  if isAbsolute path || directory.isEmpty then path
  else if directory.getLast? == some '/' then directory ++ path
  else directory ++ '/' :: path

/-- The name of the file that a path leads to, if it ends in a name. -/
def fileName? (path : Text) : Option Text :=
  match (parts path).getLast? with
  | none => none
  | some name =>
      if name == ['/'] || name == ['.'] || isUp name then none else some name

/-- Whether a file name has a point after its first character. -/
def hasExtension (path : Text) : Bool :=
  match fileName? path with
  | none => false
  | some name => (name.drop 1).contains '.'

/-- Drops idle parts from the end of a list of parts held in reverse; the first
part of a path stays. -/
def dropIdle : List Text → List Text
  | part :: next :: rest =>
      if isIdle part then dropIdle (next :: rest) else part :: next :: rest
  | parts => parts

/-- The directory of a file. -/
def parent (path : Text) : Text :=
  match dropIdle (path.splitAt '/').reverse with
  | _ :: rest =>
      let directory := ['/'].intercalate (dropIdle rest).reverse
      if directory.isEmpty && isAbsolute path then ['/'] else directory
  | [] => []

/-- Splits a path after its last slash. -/
def splitName (path : Text) : Text × Text :=
  let name := (path.reverse.takeWhile (· != '/')).reverse
  (path.take (path.length - name.length), name)

/-- The files that an import can mean, in the order they are tried: a path
without extension gets `.scss`, and a name that does not start with `_` can also
be spelled with it. -/
def candidates (path : Text) : List Text :=
  let path := if hasExtension path then path else path ++ ".scss".toList
  let (directory, name) := splitName path
  if name.head? == some '_' then [path] else [path, directory ++ '_' :: name]

end Stylesheet.Path
