import Stylesheet.Cursor.Reading
import Stylesheet.File.Loader
import Stylesheet.Log
import Stylesheet.Options
import Stylesheet.Sheet.Basic

/-!
# Compilations

A compilation holds what stylesheets have defined so far.  While one is being
read, there are also a cursor and the blocks that are open at it.
-/

namespace Stylesheet

/-- What a compilation depends on besides its inputs. -/
structure Environment where
  options : Options := {}
  loader : Loader := .nothing

/-- Variables, mixins, output, imported files and the log. -/
structure Compilation where
  scopes : Scopes := {}
  mixins : Mixins := {}
  sheet : Sheet := {}
  dependencies : List Text := []
  log : Log := {}

/-- An open block: the selectors in full, and what is put in front of the names
of its properties. -/
structure Block where
  selectors : List Text := []
  stem : Text := []
  deriving DecidableEq, Repr

/-- A compilation with a cursor and the open blocks, the innermost first. -/
structure State extends Compilation where
  cursor : Cursor
  blocks : List Block := []

/-- Work on a state; what was done before an error stays done. -/
abbrev Compile := EStateM Error State

namespace Compile

def reading {α : Type} (reader : Reader α) : Compile α := fun state =>
  match reader state.cursor with
  | .ok value cursor => .ok value { state with cursor }
  | .error error cursor => .error error { state with cursor }

def resolving {α : Type} (action : EStateM Error Scopes α) :
    Compile α := fun state =>
  match action state.scopes with
  | .ok value scopes => .ok value { state with scopes }
  | .error error scopes => .error error { state with scopes }

def expanding {α : Type} (action : EStateM Error (Mixins × Scopes) α) :
    Compile α := fun state =>
  match action (state.mixins, state.scopes) with
  | .ok value (mixins, scopes) => .ok value { state with mixins, scopes }
  | .error error (mixins, scopes) => .error error { state with mixins, scopes }

def check {α : Type} (result : Except Error α) : Compile α :=
  match result with
  | .ok value => pure value
  | .error error => throw error

def form {α : Type} (fault : FormFault) : Compile α :=
  throw (.form fault)

def record (event : Event) : Compile Unit :=
  modify fun state => { state with log := state.log.add event }

/-- Reports a problem at the cursor. -/
def warn (warning : Warning) : Compile Unit := do
  let cursor := (← get).cursor
  record (.warned cursor.file cursor.line warning)

/-- Opens a block and its scope. -/
def openBlock (block : Block) : Compile Unit :=
  modify fun state =>
    { state with blocks := block :: state.blocks, scopes := state.scopes.push }

/-- Adds a comment if these are asked for. -/
def comment (environment : Environment) (text : Text) : Compile Unit :=
  modify fun state =>
    if environment.options.debugComments then
      { state with sheet := state.sheet.addComment text }
    else state

/-- Splices a source in at the cursor. -/
def splice (source : Source) : Compile Unit := do
  let cursor ← check ((← get).cursor.insert source)
  modify fun state => { state with cursor }

end Compile

end Stylesheet
