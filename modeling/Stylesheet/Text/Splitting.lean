import Stylesheet.Text.Quoting

/-!
# Splitting at commas

Lists in selectors, arguments and imports are separated by the commas that
stand outside strings, parentheses and square brackets.
-/

namespace Stylesheet

/-- The strings and brackets a position stands in. -/
structure Grouping where
  quoting : Quoting := .outside
  depth : Nat := 0
  deriving DecidableEq, Repr

namespace Grouping

/-- The state after one more character.  A closing bracket too many changes
nothing. -/
def step (grouping : Grouping) (c : Char) : Grouping :=
  if grouping.quoting.isOutside then
    if c == '(' || c == '[' then { grouping with depth := grouping.depth + 1 }
    else if c == ')' || c == ']' then
      { grouping with depth := grouping.depth - 1 }
    else { grouping with quoting := grouping.quoting.step c }
  else { grouping with quoting := grouping.quoting.step c }

/-- Outside every string and bracket. -/
def isTop (grouping : Grouping) : Bool :=
  grouping.quoting.isOutside && grouping.depth == 0

def after (grouping : Grouping) (text : Text) : Grouping :=
  text.foldl step grouping

end Grouping

namespace Text

/-- The parts between the separating commas, for a text that starts inside
`grouping`. -/
def splitCommasFrom (grouping : Grouping) : Text → List Text
  | [] => [[]]
  | c :: rest =>
      if c == ',' && grouping.isTop then [] :: splitCommasFrom grouping rest
      else
        match splitCommasFrom (grouping.step c) rest with
        | [] => [[c]]
        | part :: parts => (c :: part) :: parts

/-- The parts between the separating commas; there is always at least one. -/
def splitCommas (text : Text) : List Text :=
  splitCommasFrom {} text

end Text

end Stylesheet
