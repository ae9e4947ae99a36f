import Stylesheet.Compile.Directive
import Stylesheet.Compile.Statement
import Stylesheet.File.Input
import Stylesheet.Sheet.Render

/-!
# Runs

A stylesheet is read statement by statement.  Files that import each other can
go on for ever, so a run takes the number of statements it may read.
-/

namespace Stylesheet

namespace Compile

/-- Reads one statement; the answer tells whether there may be more. -/
def step (environment : Environment) : Compile Bool := do
  reading Reader.skipSpace
  match (← get).cursor.current with
  | none =>
      if (← get).blocks.isEmpty then return false else form .blockOpen
  | some '}' => closeBlock; return true
  | some ';' => reading (modify Cursor.advance); return true
  | some '$' => variableStatement environment; return true
  | some '@' => directive environment; return true
  | some _ => statement environment; return true

end Compile

/-- How a run ended. -/
inductive Outcome where
  | finished
  | failed (failure : Failure)
  | unfinished

namespace State

/-- Reads statements up to the end, an error, or the limit `fuel`. -/
def run (environment : Environment) : (fuel : Nat) → State → Outcome × State
  | 0, state => (.unfinished, state)
  | fuel + 1, state =>
      match Compile.step environment state with
      | .ok true state => run environment fuel state
      | .ok false state => (.finished, state)
      | .error error state =>
          (.failed { error, location := some state.cursor.location }, state)

/-- Closes the scopes of the blocks that are still open. -/
def closeScopes (scopes : Scopes) : List Block → Scopes
  | [] => scopes
  | _ :: blocks =>
      match Scopes.pop scopes with
      | .ok () scopes => closeScopes scopes blocks
      | .error _ scopes => scopes

/-- The compilation after a run. -/
def finish (state : State) : Compilation :=
  { state.toCompilation with scopes := closeScopes state.scopes state.blocks }

end State

namespace Compilation

def record (compilation : Compilation) (event : Event) : Compilation :=
  { compilation with log := compilation.log.add event }

/-- The state at the first character of a stylesheet. -/
def start (compilation : Compilation) (source : Text)
    (file : Option Text) : State :=
  { compilation with
    cursor := (Cursor.ofText (Comment.strip source) file).advance }

/-- Notes the beginning of a stylesheet. -/
def announce (environment : Environment) (compilation : Compilation)
    (file : Option Text) :
    Compilation :=
  let compilation := compilation.record (.processing file)
  match file with
  | some name =>
      if environment.options.debugComments then
        { compilation with
          sheet := compilation.sheet.addComment ("source: ".toList ++ name) }
      else compilation
  | none => compilation

/-- Compiles a stylesheet, reading at most `fuel` statements.  The text is what
the input gives when it is asked for at most `count` characters. -/
def processInput {σ : Type} (environment : Environment) (fuel : Nat)
    (compilation : Compilation) (next : σ → Option Char × σ) (count : Nat)
    (input : σ) (file : Option Text) : Outcome × Compilation :=
  let source := characters next count input
  let (outcome, state) := ((compilation.announce environment file).start source
    file).run environment fuel
  match outcome with
  | .failed failure => (.failed failure, state.finish.record (.failed failure))
  | outcome => (outcome, state.finish)

/-- Compiles a stylesheet that is given as a text. -/
def process (environment : Environment) (fuel : Nat) (compilation : Compilation)
    (source : Text) (file : Option Text) : Outcome × Compilation :=
  compilation.processInput environment fuel TextInput.next source.length
    (.ofText source) file

/-- Compiles a stylesheet that arrives as bytes. -/
def processBytes (environment : Environment) (fuel : Nat)
    (compilation : Compilation) (bytes : ByteArray) (file : Option Text) :
    Outcome × Compilation :=
  compilation.processInput environment fuel LineInput.next bytes.size
    (.ofBytes bytes) file

/-- Compiles a file. -/
def processFile (environment : Environment) (fuel : Nat)
    (compilation : Compilation) (files : Files) (path : Text) :
    Outcome × Compilation :=
  match files.read path with
  | .ok source => compilation.process environment fuel source (some path)
  | .error fault =>
      let failure :=
        { error := .unreadable path fault, location := none : Failure }
      (.failed failure, compilation.record (.failed failure))

/-- Renders the definitions and takes them out of the compilation. -/
def render (options : Options) (compilation : Compilation) :
    Text × Compilation :=
  let (definitions, sheet) := compilation.sheet.take
  (definitions.flatMap (Definition.render options), { compilation with sheet })

/-- Looks at the use of mixins and variables, and reports what it finds. -/
def diagnose (compilation : Compilation) : List Finding × Compilation :=
  let findings := Finding.check compilation.mixins compilation.scopes
  (findings, findings.foldl
    (fun compilation finding => compilation.record (.found finding))
    compilation)

/-- Forgets everything but the log. -/
def reset (compilation : Compilation) : Compilation :=
  { log := compilation.log }

end Compilation

/-- Compiles a single stylesheet with the default options. -/
def compile (fuel : Nat) (source : Text) : Outcome × Text :=
  let (outcome, compilation) := Compilation.process {} fuel {} source none
  (outcome, (compilation.render {}).1)

end Stylesheet
