import Stylesheet.Expr.Basic

/-!
# Errors

Every way in which work on a stylesheet can fail, by its cause.  The wording
stands in `Error.message` alone.
-/

namespace Stylesheet

/-- Why a file has no text. -/
inductive ReadFault where
  | notFound
  | isDirectory
  | notDirectory
  | notUtf8
  deriving DecidableEq, Repr

def ReadFault.message : ReadFault → Text
  | .notFound => "No such file or directory (os error 2)".toList
  | .isDirectory => "Is a directory (os error 21)".toList
  | .notDirectory => "Not a directory (os error 20)".toList
  | .notUtf8 => "stream did not contain valid UTF-8".toList

/-- Faults in the form of a stylesheet. -/
inductive FormFault where
  | charExpected (wanted : Char) (found : Option Char)
  | groupOpen (opening closing : Char)
  | stringOpen
  | interpolationOpen
  | blockOpen
  | callOpen (text : Text)
  | variableNameExpected
  | nestedPropertyOutside (name : Text)
  | propertyOutside (text : Text)
  | colonExpected (text : Text)
  | propertyNameExpected
  | valueExpected (name : Text)
  | selectorExpected
  | mixinNested
  | includeOutside
  | mixinNameExpected
  | invalidParameter (parameter mixin : Text)
  | semicolonExpected (mixin : Text)
  | emptyImport
  | branchExpected
  deriving DecidableEq, Repr

def FormFault.message : FormFault → Text
  | .charExpected wanted found =>
      '\'' :: wanted :: "' is expected, found ".toList ++
        match found with
        | some c => '\'' :: Text.describeAscii c ++ ['\'']
        | none => "end of input".toList
  | .groupOpen opening closing =>
      '\'' :: closing :: "' is expected: '".toList ++ opening ::
        "' is not closed".toList
  | .stringOpen => "unterminated string".toList
  | .interpolationOpen =>
      "'\x7d' is expected: unterminated interpolation".toList
  | .blockOpen => "'\x7d' is expected: block is not closed".toList
  | .callOpen text => "')' is expected after '".toList ++ text ++ ['\'']
  | .variableNameExpected => "variable name expected after '$'".toList
  | .nestedPropertyOutside name =>
      "nested property '".toList ++ name ++
        "' outside of a selector block".toList
  | .propertyOutside text =>
      "property outside of a selector block: '".toList ++ text ++ ['\'']
  | .colonExpected text =>
      "':' is expected after property '".toList ++ text ++ ['\'']
  | .propertyNameExpected => "property name expected".toList
  | .valueExpected name =>
      "value expected for property '".toList ++ name ++ ['\'']
  | .selectorExpected => "Selector expected".toList
  | .mixinNested => "@mixin is only allowed at the top level".toList
  | .includeOutside => "@include is only allowed inside a block".toList
  | .mixinNameExpected => "mixin name expected".toList
  | .invalidParameter parameter mixin =>
      "invalid parameter '".toList ++ parameter ++ "' of mixin ".toList ++ mixin
  | .semicolonExpected mixin =>
      "';' is expected after @include ".toList ++ mixin
  | .emptyImport => "empty @import path".toList
  | .branchExpected => "'\x7b' is expected after condition".toList

def expressionMessage (source : Text) (fault : Expr.Fault) : Text :=
  "cannot evaluate expression '".toList ++ source ++
    "': ".toList ++ fault.message

/-- Why a function cannot work with its arguments. -/
inductive ArgumentFault where
  | count (expected found : Nat)
  | notANumber (text : Text)
  | expression (source : Text) (fault : Expr.Fault)
  | refused (reason : Text)

def ArgumentFault.message : ArgumentFault → Text
  | .count expected found =>
      "expected ".toList ++ Text.ofNat expected ++ " argument(s), ".toList ++
        Text.ofNat found ++ " given".toList
  | .notANumber text => '\'' :: text ++ "' is not a number".toList
  | .expression source fault => expressionMessage source fault
  | .refused reason => reason

/-- What did not come to an end. -/
inductive Endless where
  | variables (text : Text)
  | expansion
  deriving DecidableEq, Repr

def Endless.message : Endless → Text
  | .variables text => "variables in '".toList ++ text ++ ['\'']
  | .expansion => "nested mixin or import expansion".toList

inductive Error where
  | form (fault : FormFault)
  | undefinedVariable (name : Text)
  | ampersandLeft (selector : Text)
  | argumentCount (mixin : Text) (expected found : Nat)
  | noBlockOpen
  | invalidColor (value : Text)
  | expression (source : Text) (fault : Expr.Fault)
  | endless (what : Endless)
  | duplicateMixin (name : Text)
  | undefinedMixin (name : Text)
  | unknownFunction (name : Text)
  | invalidArguments (function : Text) (fault : ArgumentFault)
  | unsupportedDirective (name : Text)
  | importNotFound (path : Text)
  | unreadable (path : Text) (fault : ReadFault)

namespace Error

def message : Error → Text
  | .form fault => fault.message
  | .undefinedVariable name => "undefined variable: '$".toList ++ name ++ ['\'']
  | .ampersandLeft selector =>
      "invalid usage of & in selector '".toList ++ selector ++ ['\'']
  | .argumentCount mixin expected found =>
      "mixin '".toList ++ mixin ++ "' expects ".toList ++ Text.ofNat expected ++
        " argument(s), ".toList ++ Text.ofNat found ++ " given".toList
  | .noBlockOpen => "unexpected '\x7d': no block is open".toList
  | .invalidColor value => "invalid color value: ".toList ++ value
  | .expression source fault => expressionMessage source fault
  | .endless what =>
      "infinite loop detected while resolving ".toList ++ what.message
  | .duplicateMixin name => "duplicate mixin definition: ".toList ++ name
  | .undefinedMixin name => "can not include undefined mixin: ".toList ++ name
  | .unknownFunction name => "unknown function: ".toList ++ name
  | .invalidArguments function fault =>
      "invalid arguments for ".toList ++ function ++
        "(): ".toList ++ fault.message
  | .unsupportedDirective name => "unsupported directive: @".toList ++ name
  | .importNotFound path => "import not found: ".toList ++ path
  | .unreadable path fault =>
      "Failed to read stylesheet '".toList ++ path ++
        "': ".toList ++ fault.message

/-- A second definition of a mixin is reported and does not end the work. -/
def isFatal : Error → Bool
  | .duplicateMixin _ => false
  | _ => true

end Error

/-- A position in the text being read, with some of the text around it. -/
structure Location where
  file : Option Text
  line : Nat
  offset : Nat
  before : Text
  after : Text
  deriving DecidableEq, Repr

def Location.message (location : Location) : Text :=
  (match location.file with
    | some file => file ++ ": ".toList
    | none => []) ++
    "line ".toList ++ Text.ofNat location.line ++ ", position ".toList ++
    Text.ofNat location.offset ++ "\n  prev: ".toList ++ location.before ++
    "\n  next: ".toList ++ location.after

/-- An error, with the place in the text where it was met if there is one. -/
structure Failure where
  error : Error
  location : Option Location

def Failure.message (failure : Failure) : Text :=
  match failure.location with
  | some location =>
      failure.error.message ++ "\n  --> ".toList ++ location.message
  | none => failure.error.message

end Stylesheet
