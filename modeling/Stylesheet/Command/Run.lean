import Stylesheet.Command.Arguments
import Stylesheet.Compile.Run

/-!
# The command

The command compiles one file.  Its work is a function of the command line and
the files: a plan says what is printed and which file is written, and the plan
is concluded once that file has been written or not.
-/

namespace Stylesheet.Command

inductive Severity where
  | debug
  | info
  | warn
  | error
  deriving DecidableEq, Repr

structure Line where
  severity : Severity
  target : String
  text : Text

def Severity.name : Severity → Text
  | .debug => "DEBUG".toList
  | .info => "INFO".toList
  | .warn => "WARN".toList
  | .error => "ERROR".toList

/-- Without `-v` only warnings and errors are printed. -/
def Severity.isShown (verbosity : Nat) : Severity → Bool
  | .warn | .error => true
  | .debug | .info => 0 < verbosity

def Line.render (line : Line) : Text :=
  line.severity.name ++ ' ' :: line.target.toList ++ ": ".toList ++
    line.text ++ ['\n']

def library : String := "horizon_scss"

def severityOf : Level → Severity
  | .log => .debug
  | .warning => .warn
  | .error => .error

/-- The line of an event's message. -/
def messageLines (event : Event) : List Line :=
  match event.message? with
  | some (level, text) => [⟨severityOf level, library, text⟩]
  | none => []

def describeFile : Option Text → Text
  | some file => "Some(".toList ++ file.describe ++ [')']
  | none => "None".toList

/-- The lines that trace an event. -/
def traceLines : Event → List Line
  | .processing file =>
      [⟨.debug, library,
        "processing stylesheet file=".toList ++ describeFile file⟩]
  | .variableKept name =>
      [⟨.debug, "horizon_scss::scope",
        "keeping $".toList ++ name ++ " (!default)".toList⟩]
  | .mixinDefined name =>
      [⟨.debug, "horizon_scss::mixin", "mixin: ".toList ++ name⟩]
  | .included name =>
      [⟨.debug, "horizon_scss::mixin", "include mixin: ".toList ++ name⟩]
  | .candidateUnreadable path fault =>
      [⟨.warn, "horizon_scss::loader",
        "Failed to read ".toList ++ path ++ ": ".toList ++ fault.message⟩]
  | _ => []

/-- All lines of an event, its trace first. -/
def lines (event : Event) : List Line :=
  traceLines event ++ messageLines event

def renderLines (verbosity : Nat) (lines : List Line) : Text :=
  (lines.filter (·.severity.isShown verbosity)).flatMap Line.render

/-- Puts spaces in front of every line but the first. -/
def indentRest (width : Nat) (text : Text) : Text :=
  text.flatMap fun c =>
    if c == '\n' then '\n' :: List.replicate width ' ' else [c]

/-- The causes of an error: one alone, or numbered. -/
def renderCauses : List Text → Text
  | [] => []
  | [cause] => "\n\nCaused by:\n    ".toList ++ indentRest 4 cause
  | causes =>
      "\n\nCaused by:".toList ++ causes.zipIdx.flatMap fun (cause, number) =>
        let digits := Text.ofNat number
        '\n' :: List.replicate (5 - digits.length) ' ' ++ digits ++
          ": ".toList ++ indentRest 7 cause

def report (context : Text) (causes : List Text) : Text :=
  "Error: ".toList ++ context ++ renderCauses causes ++ ['\n']

/-- The causes of a failed compilation: the full message and what lies under
it. -/
def causesOf (failure : Failure) : List Text :=
  match failure.location, failure.error with
  | some _, error => [failure.message, error.message]
  | none, .unreadable _ fault => [failure.message, fault.message]
  | none, _ => [failure.message]

/-- What the command prints, its exit code, and the file it writes before that,
if any.  A usage error is worded elsewhere, and so has no text. -/
structure Plan where
  exit : Nat := 0
  stdout : Text := []
  stderr : Option Text := some []
  output : Option (Text × Text) := none
  verbosity : Nat := 0
  events : List Event := []

def versionText : Text := "hscss 1.0.0\n".toList

/-- Compiles the input of a command line. -/
def compilePlan (fuel : Nat) (files : Files) (arguments : Arguments)
    (input : Text) : Plan :=
  if !files.isFile input then
    { exit := 1, stderr := some
        (report ("Input file does not exist: ".toList ++ input.describe) []) }
  else
    let options := arguments.options
    let environment :=
      { options, loader := .ofFiles files (Path.parent input) : Environment }
    let (outcome, compilation) :=
      Compilation.processFile environment fuel {} files input
    match outcome with
    | .failed failure =>
        { exit := 1
          stderr :=
            some
              (renderLines arguments.verbosity
                (compilation.log.toList.flatMap lines) ++
            report ("Failed to compile ".toList ++ input.describe)
              (causesOf failure))
          events := compilation.log.toList }
    | .finished | .unfinished =>
        let compilation := if arguments.diagnostics then compilation.diagnose.2
          else compilation
        let (text, compilation) := compilation.render options
        let stderr :=
          renderLines arguments.verbosity (compilation.log.toList.flatMap lines)
        match arguments.output with
        | none =>
            { stdout := text, stderr := some stderr,
              events := compilation.log.toList }
        | some path =>
            { stderr := some stderr, output := some (path, text),
              verbosity := arguments.verbosity
              events := compilation.log.toList }

/-- The plan of a command line. -/
def plan (fuel : Nat) (files : Files) (commandLine : List Text) : Plan :=
  match Arguments.parse? commandLine with
  | none => { exit := 2, stderr := none }
  | some .version => { stdout := versionText }
  | some (.compile arguments) =>
      match arguments.input with
      | some input => compilePlan fuel files arguments input
      | none => { exit := 2, stderr := none }

/-- The plan after its file has been written or not. -/
def Plan.conclude (plan : Plan) (path : Text)
    (written : Except ReadFault Unit) : Plan :=
  match written with
  | .ok () =>
      let line :=
        { severity := .info, target := "hscss",
          text := "Wrote ".toList ++ path : Line }
      { plan with
        stderr := plan.stderr.map (· ++ renderLines plan.verbosity [line]) }
  | .error fault =>
      { plan with
        exit := 1
        stderr := plan.stderr.map
          (· ++ report ("Failed to write ".toList ++ path.describe)
            [fault.message]) }

/-- Runs the command on a file tree. -/
def run (fuel : Nat) (tree : FileTree) (commandLine : List Text) :
    Plan × FileTree :=
  let plan := plan fuel tree.files commandLine
  match plan.output with
  | none => (plan, tree)
  | some (path, text) =>
      match tree.write path (String.ofList text).toUTF8 with
      | .ok tree => (plan.conclude path (.ok ()), tree)
      | .error fault => (plan.conclude path (.error fault), tree)

end Stylesheet.Command
