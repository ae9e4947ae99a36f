import Stylesheet.Error
import Stylesheet.File.Path

/-!
# File trees

The files and directories of a system, with its working directory.  A place is
the list of names that leads from the root to a file or directory, and stands
for its canonical path.  Every path is resolved to a place one part after the
other, and each part on the way has to be a directory.
-/

namespace Stylesheet

/-- The name of a file or directory. -/
structure FileName where
  text : Text
  proper : Path.isName text = true
  deriving DecidableEq, Repr

namespace FileName

def of? (text : Text) : Option FileName :=
  if proper : Path.isName text = true then some ⟨text, proper⟩ else none

/-- The order of names by their characters. -/
def compare (first second : FileName) : Ordering :=
  Text.compare first.text second.text

end FileName

/-- The names on the way from the root. -/
abbrev Place := List FileName

/-- The canonical path of a place. -/
def Place.path (place : Place) : Text :=
  '/' :: ['/'].intercalate (place.map FileName.text)

/-- What can be asked of the files around a stylesheet. -/
structure Files where
  read : Text → Except ReadFault Text
  isFile : Text → Bool

/-- Files and directories of which the canonical paths can be asked. -/
structure FileSystem extends Files where
  canonical : Text → Except ReadFault Place

inductive Node where
  | directory
  | file (bytes : ByteArray)

/-- The working directory, and what is known to be at which places.  The working
directory is always there, and so is everything above it. -/
structure FileTree where
  base : Place := []
  entries : List (Place × Node) := []

namespace FileTree

def node? (tree : FileTree) (place : Place) : Option Node :=
  if place.isPrefixOf tree.base then some .directory
  else tree.entries.lookup place

/-- Follows the parts of a path from a place.  Nothing is above the root, so
`..` leads nowhere else from there. -/
def walk (tree : FileTree) (place : Place) : List Text → Except ReadFault Place
  | [] => .ok place
  | part :: rest =>
      match tree.node? place with
      | none => .error .notFound
      | some (.file _) => .error .notDirectory
      | some .directory =>
          if Path.isIdle part then walk tree place rest
          else if Path.isUp part then walk tree place.dropLast rest
          else
            match FileName.of? part with
            | none => .error .notFound
            | some name =>
                let next := place ++ [name]
                if (tree.node? next).isSome then walk tree next rest
                else .error .notFound

/-- The place where a path starts. -/
def start (tree : FileTree) (path : Text) : Place :=
  if Path.isAbsolute path then [] else tree.base

/-- The place that a path leads to. -/
def resolve (tree : FileTree) (path : Text) : Except ReadFault Place :=
  if path.isEmpty then .error .notFound
  else tree.walk (tree.start path) (path.splitAt '/')

def isFile (tree : FileTree) (path : Text) : Bool :=
  match tree.resolve path with
  | .error _ => false
  | .ok place =>
      match tree.node? place with
      | some (.file _) => true
      | _ => false

/-- The text of bytes in UTF-8. -/
def decode? (bytes : ByteArray) : Option Text :=
  (String.fromUTF8? bytes).map String.toList

theorem decode?_eq_some {bytes : ByteArray} {text : Text} :
    decode? bytes = some text ↔ bytes = text.utf8Encode := by
  unfold decode? String.fromUTF8?
  constructor
  · intro decoded
    split at decoded
    · rename_i valid
      obtain rfl : (String.fromUTF8 bytes valid).toList = text :=
        Option.some.inj decoded
      rw [String.utf8Encode_toList]
      rfl
    · contradiction
  · rintro rfl
    have valid : text.utf8Encode.IsValidUTF8 := (String.ofList text).isValidUTF8
    rw [dif_pos valid]
    exact congrArg some String.toList_ofList

/-- The text of a file. -/
def read (tree : FileTree) (path : Text) : Except ReadFault Text :=
  match tree.resolve path with
  | .error fault => .error fault
  | .ok place =>
      match tree.node? place with
      | none => .error .notFound
      | some .directory => .error .isDirectory
      | some (.file bytes) =>
          match decode? bytes with
          | some text => .ok text
          | none => .error .notUtf8

/-- The files of a tree. -/
def files (tree : FileTree) : Files where
  read := tree.read
  isFile := tree.isFile

def system (tree : FileTree) : FileSystem where
  toFiles := tree.files
  canonical := tree.resolve

/-- Puts a file or directory at a place, in place of what was there. -/
def set (tree : FileTree) (place : Place) (node : Node) : FileTree :=
  { tree with
    entries := (place, node) :: tree.entries.filter (·.1 != place) }

/-- Makes the directories on the way to a place. -/
def makeDirectories (tree : FileTree) (place : Place) : FileTree :=
  (List.range place.length).foldl (fun tree count =>
    let directory := place.take count
    if (tree.node? directory).isSome then tree
    else tree.set directory .directory) tree

/-- Adds a file with the directories above it; a path that ends in a slash adds
a directory. -/
def insert (tree : FileTree) (path : Text) (bytes : ByteArray) : FileTree :=
  let place := tree.start path ++ (path.splitAt '/').filterMap FileName.of?
  let tree := tree.makeDirectories place
  if path.getLast? == some '/' then tree.set place .directory
  else tree.set place (.file bytes)

/-- Writes a file into a directory that is there. -/
def write (tree : FileTree) (path : Text) (bytes : ByteArray) :
    Except ReadFault FileTree :=
  if path.isEmpty then .error .notFound
  else
    let parts := path.splitAt '/'
    match tree.walk (tree.start path) (parts.dropLast ++ [['.']]) with
    | .error fault => .error fault
    | .ok directory =>
        match FileName.of? (parts.getLastD []) with
        | none => .error .isDirectory
        | some name =>
            match tree.node? (directory ++ [name]) with
            | some .directory => .error .isDirectory
            | _ => .ok (tree.set (directory ++ [name]) (.file bytes))

/-- Deletes the file that a path leads to, if it is there. -/
def remove (tree : FileTree) (path : Text) : FileTree :=
  match tree.resolve path with
  | .error _ => tree
  | .ok place =>
      { tree with entries := tree.entries.filter (·.1 != place) }

end FileTree

end Stylesheet
