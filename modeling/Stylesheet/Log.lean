import Stylesheet.Finding

/-!
# The log

What happens during a compilation is recorded as events.  Most of them are
messages for the user; the others only trace the work.
-/

namespace Stylesheet

/-- Problems that do not end a compilation. -/
inductive Warning where
  | unknownFunction (name : Text)
  | harmfulSelector (selector : Text)
  | duplicateMixin (name : Text)
  deriving DecidableEq, Repr

def Warning.message : Warning → Text
  | .unknownFunction name => (Error.unknownFunction name).message
  | .harmfulSelector selector =>
      "performance: possibly harmful selector ".toList ++ selector
  | .duplicateMixin name => (Error.duplicateMixin name).message

inductive Event where
  /-- A stylesheet is about to be read. -/
  | processing (file : Option Text)
  /-- A `!default` definition had no effect. -/
  | variableKept (name : Text)
  | mixinDefined (name : Text)
  /-- An inclusion was met. -/
  | including (name : Text)
  /-- An inclusion of a known mixin with the right number of arguments. -/
  | included (name : Text)
  | importing (path : Text)
  /-- A file that could have been imported exists but cannot be read. -/
  | candidateUnreadable (path : Text) (fault : ReadFault)
  | warned (file : Option Text) (line : Nat) (warning : Warning)
  | found (finding : Finding)
  | failed (failure : Failure)

inductive Level where
  | log
  | warning
  | error
  deriving DecidableEq, Repr

namespace Event

/-- The message of an event, unless it is only a trace. -/
def message? : Event → Option (Level × Text)
  | .processing _ | .mixinDefined _ | .included _ | .candidateUnreadable .. =>
      none
  | .variableKept name =>
      some (.log,
        "variable $".toList ++ name ++ " keeps its value (!default)".toList)
  | .including name => some (.log, "include mixin: ".toList ++ name)
  | .importing path => some (.log, "import: ".toList ++ path)
  | .warned file line warning =>
      some (.warning,
        file.getD "<input>".toList ++ ": ".toList ++ warning.message ++
        ", line: ".toList ++ Text.ofNat line)
  | .found finding => some (.warning, finding.message)
  | .failed failure => some (.error, failure.message)

end Event

/-- The recorded events, the newest first. -/
structure Log where
  newest : List Event := []

namespace Log

def add (log : Log) (event : Event) : Log :=
  ⟨event :: log.newest⟩

/-- The events in the order they happened. -/
def toList (log : Log) : List Event :=
  log.newest.reverse

/-- The messages in the order they were reported. -/
def messages (log : Log) : List (Level × Text) :=
  log.toList.filterMap Event.message?

/-- The messages of one level. -/
def messagesAt (log : Log) (level : Level) : List Text :=
  (log.messages.filter (·.1 == level)).map (·.2)

end Log

end Stylesheet
