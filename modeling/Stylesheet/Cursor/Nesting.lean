import Stylesheet.Error
import Stylesheet.Text.Quoting

/-!
# Nesting

The end of a statement, a condition or a value is the first such character that
stands outside strings, parentheses and interpolations.
-/

namespace Stylesheet

/-- The string, parentheses and interpolations a position stands in. -/
structure Nesting where
  quoting : Quoting := .outside
  parens : Nat := 0
  interpolations : Nat := 0
  afterHash : Bool := false
  deriving DecidableEq, Repr

namespace Nesting

/-- The state after one more character.  A brace opens an interpolation after
`#`, or inside of one; parentheses do not count there. -/
def step (nesting : Nesting) (c : Char) : Nesting :=
  let nesting' := { nesting with afterHash := c == '#' }
  if !nesting.quoting.isOutside || isQuote c then
    { nesting' with quoting := nesting.quoting.step c }
  else if c == '{' && (nesting.afterHash || 0 < nesting.interpolations) then
    { nesting' with interpolations := nesting.interpolations + 1 }
  else if 0 < nesting.interpolations then
    if c == '}' then
      { nesting' with interpolations := nesting.interpolations - 1 }
    else nesting'
  else if c == '(' then { nesting' with parens := nesting.parens + 1 }
  else if c == ')' then { nesting' with parens := nesting.parens - 1 }
  else nesting'

/-- Whether the next character `c` stands at the top level. -/
def isTop (nesting : Nesting) (c : Char) : Bool :=
  nesting.quoting.isOutside && nesting.parens ==
    0 && nesting.interpolations == 0 &&
    !isQuote c && c != '(' && c != ')' && !(c == '{' && nesting.afterHash)

/-- The state after a whole text. -/
def after (nesting : Nesting) (text : Text) : Nesting :=
  text.foldl step nesting

/-- Every string and interpolation has to be closed at the end of a reading. -/
def checkClosed (nesting : Nesting) : Except Error Unit :=
  if !nesting.quoting.isOutside then .error (.form .stringOpen)
  else if 0 < nesting.interpolations then .error (.form .interpolationOpen)
  else .ok ()

/-- The text before the first character at the top level for which `stop`
holds, or all of the text. -/
def spanUntil (stop : Char → Bool) (nesting : Nesting) : Text → Text
  | [] => []
  | c :: rest =>
      if nesting.isTop c && stop c then []
      else c :: spanUntil stop (nesting.step c) rest

end Nesting

/-- What ends a statement. -/
inductive Boundary where
  | opening
  | semicolon
  | closing
  | ending
  deriving DecidableEq, Repr

namespace Boundary

def isBoundary (c : Char) : Bool :=
  c == '{' || c == ';' || c == '}'

def ofChar? : Option Char → Boundary
  | some '{' => .opening
  | some ';' => .semicolon
  | some '}' => .closing
  | _ => .ending

/-- What ends the statement at the start of a text. -/
def ofText (text : Text) : Boundary :=
  let statement := Nesting.spanUntil isBoundary {} text
  ofChar? (text.drop statement.length).head?

end Boundary

/-- The contents of a group, for a text that starts inside the group with
`depth` further ones open.  Only strings are respected. -/
def spanGroup (opening closing : Char) (depth : Nat) (quoting : Quoting) :
    Text → Option Text
  | [] => none
  | c :: rest =>
      if quoting.isOutside && c == opening then
        (spanGroup opening closing (depth + 1) quoting rest).map (c :: ·)
      else if quoting.isOutside && c == closing then
        if depth == 0 then some []
        else (spanGroup opening closing (depth - 1) quoting rest).map (c :: ·)
      else (spanGroup opening closing depth (quoting.step c) rest).map (c :: ·)

/-- Splits a declaration at its first colon at the top level. -/
def splitDeclaration? (text : Text) : Option (Text × Text) :=
  let name := Nesting.spanUntil (· == ':') {} text
  match text.drop name.length with
  | _ :: value => some (name, value)
  | [] => none

end Stylesheet
