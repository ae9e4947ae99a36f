import Stylesheet.Function.Builtin
import Stylesheet.Function.Native
import Stylesheet.Text.Splitting

/-!
# Calls in values

A call is an opening parenthesis outside strings right after a name with a
letter in it.  Its arguments are resolved first; then a host function, a builtin
function or a native one is looked for, in this order.  What becomes of a call
to none of these is a matter of policy.  The contents of `url()` are left alone.
-/

namespace Stylesheet

/-- A function supplied from outside, on resolved and unquoted arguments. -/
abbrev HostFunction := List Text → Except Error Text

/-- What to do with calls to unknown functions. -/
structure UnknownCalls where
  fail : Bool := false
  report : Bool := true
  keep : Bool := true
  deriving DecidableEq, Repr

structure Functions where
  host : List (Text × HostFunction) := []
  unknown : UnknownCalls := {}

/-- A value without calls left to resolve, and the names of the unknown
functions to report. -/
structure Resolved where
  value : Text
  unknown : List Text := []
  deriving DecidableEq, Repr

/-- The arguments of a call: the parts between commas, trimmed and unquoted. -/
def splitArguments (inner : Text) : List Text :=
  if inner.trim.isEmpty then []
  else inner.splitCommas.map fun part => Text.unquote part.trim

/-- Puts a character in front of the first part of a split text. -/
def prepend (c : Char) (parts : Text × Text) : Text × Text :=
  (c :: parts.1, parts.2)

/-- Splits at the parenthesis that closes the one before the text, where `depth`
further ones are open. -/
def spanCall (depth : Nat) (quoting : Quoting) : Text → Option (Text × Text)
  | [] => none
  | c :: rest =>
      if quoting.isOutside && c == ')' then
        if depth == 0 then some ([], rest)
        else (spanCall (depth - 1) quoting rest).map (prepend c)
      else if quoting.isOutside && c == '(' then
        (spanCall (depth + 1) quoting rest).map (prepend c)
      else (spanCall depth (quoting.step c) rest).map (prepend c)

/-- A split call is the text of its two parts around the closing parenthesis. -/
theorem eq_of_spanCall {depth : Nat} {quoting : Quoting}
    {text inner after : Text}
    (found : spanCall depth quoting text = some (inner, after)) :
    text = inner ++ ')' :: after := by
  induction text generalizing depth quoting inner with
  | nil => simp [spanCall] at found
  | cons c rest ih =>
      simp only [spanCall] at found
      grind [prepend, Option.map_eq_some_iff]

theorem length_of_spanCall {depth : Nat} {quoting : Quoting}
    {text inner after : Text}
    (found : spanCall depth quoting text = some (inner, after)) :
    text.length = inner.length + after.length + 1 := by
  simp [eq_of_spanCall found]
  omega

namespace Functions

def kept (name inner : Text) : Text :=
  name ++ '(' :: inner ++ [')']

/-- The result of a call with resolved arguments. -/
def finish (functions : Functions) (name : Text) (inner : Resolved) :
    Except Error Resolved :=
  match functions.host.lookup name with
  | some function =>
      match function (splitArguments inner.value) with
      | .ok value => .ok { inner with value }
      | .error error => .error error
  | none =>
      match Builtin.ofName? name with
      | some function =>
          match function.apply (splitArguments inner.value) with
          | .ok value => .ok { inner with value }
          | .error error => .error error
      | none =>
          if isNative name then
            .ok { inner with value := kept name inner.value }
          else if functions.unknown.fail then .error (.unknownFunction name)
          else
            .ok {
              value := if functions.unknown.keep then kept name inner.value
              else inner.value
              unknown :=
                if functions.unknown.report then inner.unknown ++ [name]
                else inner.unknown }

/-- Resolves the calls of a text that follows the output `out`, which is held in
reverse. -/
def resolveAfter (functions : Functions) (quoting : Quoting) (out : Text)
    (text : Text) :
    Except Error Resolved :=
  match text with
  | [] => .ok { value := out.reverse }
  | c :: rest =>
      if quoting.isOutside && c == '(' &&
        (out.takeWhile isNameChar).any Char.isAlpha then
        let name := (out.takeWhile isNameChar).reverse
        match _found : spanCall 0 .outside rest with
        | none => .error (.form (.callOpen (c :: rest)))
        | some (inner, after) =>
            let result :=
              if Text.sameLetters name "url".toList then
                .ok { value := kept name inner }
              else
                match resolveAfter functions .outside [] inner with
                | .ok resolved => functions.finish name resolved
                | .error error => .error error
            match result with
            | .error error => .error error
            | .ok call =>
                match resolveAfter functions .outside
                    (call.value.reverse ++ out.drop name.length) after with
                | .ok following =>
                    .ok { following with
                      unknown := call.unknown ++ following.unknown }
                | .error error => .error error
      else resolveAfter functions (quoting.step c) (c :: out) rest
termination_by text.length
decreasing_by
  · have split := length_of_spanCall ‹_›
    simp only [List.length_cons]
    omega
  · have split := length_of_spanCall ‹_›
    simp only [List.length_cons]
    omega
  · simp

/-- Resolves every call in a value. -/
def resolve (functions : Functions) (text : Text) : Except Error Resolved :=
  functions.resolveAfter .outside [] text

end Functions

end Stylesheet
