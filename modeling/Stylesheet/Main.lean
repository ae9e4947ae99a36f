import Stylesheet.Command.Run

/-!
# The program

The files of a compilation become known step by step: the plan of the command is
made with the files read so far, and its imports tell which others to read.
Once there are none, the plan is carried out.
-/

namespace Stylesheet.Program

/-- The paths that have been tried, and what came of it. -/
abbrev Known := List (Text × Except ReadFault Text)

def Known.files (known : Known) : Files where
  read path := (known.lookup path).getD (.error .notFound)
  isFile path :=
    match known.lookup path with
    | some (.ok _) | some (.error .notUtf8) => true
    | _ => false

/-- A path that cannot be used for any other reason counts as missing. -/
def faultOf : IO.Error → ReadFault
  | .inappropriateType _ 20 _ => .notDirectory
  | .inappropriateType .. => .isDirectory
  | _ => .notFound

def readPath (path : Text) : IO (Except ReadFault Text) := do
  match ← (IO.FS.readBinFile (String.ofList path)).toBaseIO with
  | .error error => return .error (faultOf error)
  | .ok bytes =>
      match FileTree.decode? bytes with
      | some text => return .ok text
      | none => return .error .notUtf8

/-- The paths that a command line and the events of its plan ask for. -/
def wanted (arguments : Arguments) (events : List Event) : List Text :=
  match arguments.input with
  | none => []
  | some input => input :: events.flatMap fun event =>
      match event with
      | .importing path =>
          (Path.candidates path).map (Path.join (Path.parent input))
      | _ => []

def fuel : Nat := 1000000000000000000

/-- Makes the plan with all files that it asks for. -/
partial def gather (arguments : Arguments) (commandLine : List Text)
  (known : Known) :
    IO Command.Plan := do
  let plan := Command.plan fuel known.files commandLine
  let unknown := (wanted arguments plan.events).eraseDups.filter
    fun path => (known.lookup path).isNone
  if unknown.isEmpty then return plan
  let found ← unknown.mapM fun path => return (path, ← readPath path)
  gather arguments commandLine (found ++ known)

def write (path text : Text) : IO (Except ReadFault Unit) := do
  match ← (IO.FS.writeFile (String.ofList path) (String.ofList text)).toBaseIO
    with
  | .ok () => return .ok ()
  | .error error => return .error (faultOf error)

def usage : String := "Usage: hscss [OPTIONS] <INPUT>\n"

/-- Writes the file of a plan. -/
def writeOutput (plan : Command.Plan) : IO Command.Plan := do
  match plan.output with
  | none => return plan
  | some (path, text) => return plan.conclude path (← write path text)

/-- Carries out a plan and gives its exit code. -/
def carryOut (plan : Command.Plan) : IO UInt32 := do
  let plan ← writeOutput plan
  IO.eprint ((plan.stderr.map String.ofList).getD usage)
  IO.print (String.ofList plan.stdout)
  return plan.exit.toUInt32

end Stylesheet.Program

open Stylesheet Program in
/-- Runs the command line. -/
def main (commandLine : List String) : IO UInt32 := do
  let commandLine := commandLine.map String.toList
  match Arguments.parse? commandLine with
  | some (.compile arguments) => carryOut (← gather arguments commandLine [])
  | _ => carryOut (Command.plan fuel (Known.files []) commandLine)
