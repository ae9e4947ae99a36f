import Stylesheet.Text.Basic

/-!
# Strings inside text

`Quoting` tells whether a position stands inside a quoted string.  A backslash
in a string takes the next character out of play, whatever it is; outside
strings it is an ordinary character.
-/

namespace Stylesheet

def isQuote (c : Char) : Bool :=
  c == '"' || c == '\''

/-- Where a position stands with respect to quoted strings. -/
inductive Quoting where
  | outside
  | inside (mark : Char)
  | escaped (mark : Char)
  deriving DecidableEq, Repr

namespace Quoting

/-- The state after one more character. -/
def step : Quoting → Char → Quoting
  | .outside, c => if isQuote c then .inside c else .outside
  | .inside mark, c =>
      if c == '\\' then .escaped mark
      else if c == mark then .outside
      else .inside mark
  | .escaped mark, _ => .inside mark

def isOutside : Quoting → Bool
  | .outside => true
  | _ => false

/-- The state after a whole text. -/
def after (quoting : Quoting) (text : Text) : Quoting :=
  text.foldl step quoting

end Quoting

namespace Text

/-- Collapses blanks outside strings; `gap` says that blanks were passed since
the last character kept. -/
def normalizeAfter (quoting : Quoting) (gap : Bool) : Text → Text
  | [] => []
  | c :: rest =>
      if quoting.isOutside then
        if isBlank c then normalizeAfter quoting true rest
        else if gap then ' ' :: c :: normalizeAfter (quoting.step c) false rest
        else c :: normalizeAfter (quoting.step c) false rest
      else c :: normalizeAfter (quoting.step c) gap rest

/-- The trimmed text in which every run of blanks outside strings is one
space. -/
def normalize (text : Text) : Text :=
  normalizeAfter .outside false (trim text)

/-- The contents of a text that is one quoted string without a further quote
of its kind; any other text is returned as it is. -/
def unquote (text : Text) : Text :=
  match text with
  | [] => text
  | mark :: rest =>
      match rest.getLast? with
      | none => text
      | some last =>
          let contents := rest.dropLast
          if isQuote mark && last == mark && !contents.contains mark then
            contents
          else text

end Text

end Stylesheet
