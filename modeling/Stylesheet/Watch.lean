import Stylesheet.Compile.Run

/-!
# Watching

A watch is the set of files whose changes matter for a build: the entry and what
it imports, as far as these exist.  A rebuild compiles from nothing and moves
the watch to the files of the build, also when it fails.
-/

namespace Stylesheet

namespace Place

/-- The order of places by their names. -/
def compare : Place → Place → Ordering :=
  List.compareLex FileName.compare

/-- Adds a place to a list in order, unless it is there. -/
def insert (place : Place) : List Place → List Place
  | [] => [place]
  | other :: rest =>
      match compare place other with
      | .lt => place :: other :: rest
      | .eq => other :: rest
      | .gt => other :: insert place rest

end Place

/-- The watched places in order. -/
structure Watch where
  places : List Place := []
  deriving DecidableEq, Repr

namespace Watch

/-- Watches one more place. -/
def addPlace (watch : Watch) (place : Place) : Watch :=
  ⟨Place.insert place watch.places⟩

/-- Watches one more file or directory. -/
def add (watch : Watch) (system : FileSystem) (path : Text) :
    Except Error Watch :=
  match system.canonical path with
  | .ok place => .ok (watch.addPlace place)
  | .error fault => .error (.unreadable path fault)

/-- Stops watching a file or directory.  A path that leads nowhere is taken as
it is given. -/
def remove (watch : Watch) (system : FileSystem) (path : Text) : Watch :=
  match system.canonical path with
  | .ok place => ⟨watch.places.filter (· != place)⟩
  | .error _ => ⟨watch.places.filter fun place => !Path.same path place.path⟩

/-- The places of those of some paths that lead somewhere, in order. -/
def wanted (system : FileSystem) (paths : List Text) : List Place :=
  paths.foldl (fun places path =>
    match system.canonical path with
    | .ok place => Place.insert place places
    | .error _ => places) []

/-- Moves a watch to the places of some paths: those that are not wanted any
more are dropped, and the wanted ones are watched by their canonical paths. -/
def sync (watch : Watch) (system : FileSystem) (paths : List Text) : Watch :=
  let wanted := wanted system paths
  wanted.foldl (fun watch place =>
    match watch.add system place.path with
    | .ok watch => watch
    | .error _ => watch) ⟨watch.places.filter wanted.contains⟩

/-- Compiles a file from scratch and moves the watch to the files of the build.
The text is that of the build if it finishes. -/
def rebuild (watch : Watch) (environment : Environment) (fuel : Nat)
    (system : FileSystem) (compilation : Compilation) (entry : Text) :
    (Outcome × Text) × Watch × Compilation :=
  let (outcome, compilation) :=
    compilation.reset.processFile environment fuel system.toFiles entry
  let watch := watch.sync system (entry :: compilation.dependencies)
  match outcome with
  | .finished =>
      let (text, compilation) := compilation.render environment.options
      ((.finished, text), watch, compilation)
  | outcome => ((outcome, []), watch, compilation)

end Watch

end Stylesheet
