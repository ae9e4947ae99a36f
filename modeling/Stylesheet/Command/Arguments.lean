import Stylesheet.Options

/-!
# Command-line arguments

Options can be given in any order, with their values attached or in the next
argument.  Short flags can be run together.  `--` ends the options.  An option
or flag other than `-v` is given at most once.
-/

namespace Stylesheet

/-- What to do with calls to unknown functions. -/
inductive UnknownMode where
  | keep
  | warn
  | drop
  | error
  deriving DecidableEq, Repr

namespace UnknownMode

def ofName? (name : Text) : Option UnknownMode :=
  match String.ofList name with
  | "keep" => some .keep
  | "warn" => some .warn
  | "drop" => some .drop
  | "error" => some .error
  | _ => none

def calls : UnknownMode → UnknownCalls
  | .keep => { fail := false, report := false, keep := true }
  | .warn => { fail := false, report := true, keep := true }
  | .drop => { fail := false, report := false, keep := false }
  | .error => { fail := true, report := false, keep := true }

end UnknownMode

/-- The arguments as far as they have been read. -/
structure Arguments where
  input : Option Text := none
  output : Option Text := none
  debugSelector : Option Text := none
  unknown : Option UnknownMode := none
  keepDebugStyle : Bool := false
  debugComments : Bool := false
  diagnostics : Bool := false
  /-- Asks for a compilation after every change; the program does only the
  first. -/
  watch : Bool := false
  verbosity : Nat := 0
  deriving DecidableEq, Repr

/-- What a command line asks for. -/
inductive Request where
  | version
  | compile (arguments : Arguments)
  deriving DecidableEq, Repr

namespace Arguments

def options (arguments : Arguments) : Options where
  functions := { unknown := (arguments.unknown.getD .warn).calls }
  debugSelector := arguments.debugSelector.getD "#debug".toList
  keepDebugStyle := arguments.keepDebugStyle
  debugComments := arguments.debugComments

inductive Flag where
  | keepDebugStyle
  | debugComments
  | diagnostics
  | watch
  | verbose
  deriving DecidableEq, Repr

/-- The options that take a value. -/
inductive Setting where
  | output
  | debugSelector
  | unknownFunctions
  deriving DecidableEq, Repr

/-- What the name of an option stands for. -/
inductive Meaning where
  | flag (flag : Flag)
  | setting (setting : Setting)
  | version
  deriving DecidableEq, Repr

def Meaning.ofLong? (name : Text) : Option Meaning :=
  match String.ofList name with
  | "output" => some (.setting .output)
  | "debug-selector" => some (.setting .debugSelector)
  | "unknown-functions" => some (.setting .unknownFunctions)
  | "keep-debug-style" => some (.flag .keepDebugStyle)
  | "debug-comments" => some (.flag .debugComments)
  | "diagnostics" => some (.flag .diagnostics)
  | "watch" => some (.flag .watch)
  | "verbose" => some (.flag .verbose)
  | "version" => some .version
  | _ => none

def Meaning.ofShort? : Char → Option Meaning
  | 'o' => some (.setting .output)
  | 'v' => some (.flag .verbose)
  | 'V' => some .version
  | _ => none

/-- Sets a flag that is not set yet. -/
def raise (arguments : Arguments) : Flag → Option Arguments
  | .keepDebugStyle =>
      if arguments.keepDebugStyle then none
      else some { arguments with keepDebugStyle := true }
  | .debugComments =>
      if arguments.debugComments then none
      else some { arguments with debugComments := true }
  | .diagnostics =>
      if arguments.diagnostics then none
      else some { arguments with diagnostics := true }
  | .watch =>
      if arguments.watch then none else some { arguments with watch := true }
  | .verbose => some { arguments with verbosity := arguments.verbosity + 1 }

/-- Gives a value to an option that has none yet. -/
def assign (arguments : Arguments) (value : Text) : Setting → Option Arguments
  | .output =>
      if arguments.output.isSome || value.isEmpty then none
      else some { arguments with output := some value }
  | .debugSelector =>
      if arguments.debugSelector.isSome then none
      else some { arguments with debugSelector := some value }
  | .unknownFunctions => do
      if arguments.unknown.isSome then none
      return { arguments with unknown := some (← UnknownMode.ofName? value) }

/-- The one argument that is not an option. -/
def assignInput (arguments : Arguments) (value : Text) : Option Arguments :=
  if arguments.input.isSome || value.isEmpty then none
  else some { arguments with input := some value }

/-- A dash alone is a value. -/
def isOption (argument : Text) : Bool :=
  argument.head? == some '-' && argument != ['-']

def complete (arguments : Arguments) : Option Request :=
  if arguments.input.isSome then some (.compile arguments) else none

/-- What is still to be read after a row of short flags. -/
inductive Row where
  | done (arguments : Arguments)
  | version
  | valueNext (arguments : Arguments) (setting : Setting)

/-- Reads a row of short flags; an option takes the rest of the row as its
value. -/
def readRow? (arguments : Arguments) : Text → Option Row
  | [] => some (.done arguments)
  | c :: rest => do
      match ← Meaning.ofShort? c with
      | .version => some .version
      | .flag flag => readRow? (← arguments.raise flag) rest
      | .setting setting =>
          match rest with
          | [] => some (.valueNext arguments setting)
          | '=' :: value => return .done (← arguments.assign value setting)
          | value => return .done (← arguments.assign value setting)

/-- Splits a long option at its first equals sign. -/
def splitLong (argument : Text) : Text × Option Text :=
  match argument.dropWhile (· != '=') with
  | _ :: value => (argument.takeWhile (· != '='), some value)
  | [] => (argument, none)

/-- Reads arguments; none stands for a usage error. -/
def read? (arguments : Arguments) : List Text → Option Request
  | [] => arguments.complete
  | ['-', '-'] :: rest => do (← rest.foldlM assignInput arguments).complete
  | ('-' :: '-' :: long) :: rest => do
      let (name, attached) := splitLong long
      match ← Meaning.ofLong? name, attached with
      | .version, none => some .version
      | .flag flag, none => read? (← arguments.raise flag) rest
      | .setting setting, some value =>
          read? (← arguments.assign value setting) rest
      | .setting setting, none =>
          match rest with
          | value :: rest =>
              if isOption value then none
              else read? (← arguments.assign value setting) rest
          | [] => none
      | _, some _ => none
  | ('-' :: c :: short) :: rest => do
      match ← arguments.readRow? (c :: short) with
      | .version => some .version
      | .done arguments => read? arguments rest
      | .valueNext arguments setting =>
          match rest with
          | value :: rest =>
              if isOption value then none
              else read? (← arguments.assign value setting) rest
          | [] => none
  | value :: rest => do read? (← arguments.assignInput value) rest

/-- The request of a command line; none stands for a usage error. -/
def parse? (commandLine : List Text) : Option Request :=
  read? {} commandLine

end Arguments

end Stylesheet
