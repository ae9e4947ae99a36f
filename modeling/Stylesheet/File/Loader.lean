import Stylesheet.File.Tree

/-!
# Loaders

A loader finds the text that an import asks for, and where it stands if that is
in a file.
-/

namespace Stylesheet

/-- The text found for an import, and the files that exist but have no text. -/
structure Fetched where
  content : Option Text
  unreadable : List (Text × ReadFault) := []
  deriving DecidableEq, Repr

structure Loader where
  fetch : Text → Fetched
  locate : Text → Option Text := fun _ => none

namespace Loader

/-- Finds nothing. -/
def nothing : Loader where
  fetch _ := { content := none }

/-- Finds texts that are held in memory. -/
def ofTexts (texts : List (Text × Text)) : Loader where
  fetch path :=
    { content := (Path.candidates path).findSome?
        fun candidate => texts.lookup candidate }

/-- The first text among files that are tried one after the other. -/
def fetchFirst (files : Files) : List Text → Fetched
  | [] => { content := none }
  | path :: rest =>
      match files.read path with
      | .ok text => { content := some text }
      | .error .notFound => fetchFirst files rest
      | .error fault =>
          let fetched := fetchFirst files rest
          { fetched with unreadable := (path, fault) :: fetched.unreadable }

/-- Finds files below the directory `root`. -/
def ofFiles (files : Files) (root : Text) : Loader where
  fetch path := fetchFirst files ((Path.candidates path).map (Path.join root))
  locate path :=
    ((Path.candidates path).map (Path.join root)).find? files.isFile

end Loader

end Stylesheet
