import Stylesheet.Text.Quoting

/-!
# Comments

A line comment runs from `//` to the end of the line, and its line break stays.
A block comment runs from `/*` to the next `*/`, or to the end of the text, and
leaves nothing.  Strings are copied, and a `//` right after a `:` belongs to an
address such as `http://host`.
-/

namespace Stylesheet.Comment

/-- What the reader of a commented text is inside of. -/
inductive Phase where
  | code (quoting : Quoting)
  | line
  | block (star : Bool)
  deriving DecidableEq, Repr

/-- The text without its comments, for a reader inside `phase` whose last kept
character was `previous`. -/
def stripFrom : Phase → Option Char → Text → Text
  | _, _, [] => []
  | .line, previous, c :: rest =>
      if c == '\n' then c :: stripFrom (.code .outside) (some c) rest
      else stripFrom .line previous rest
  | .block star, previous, c :: rest =>
      if star && c == '/' then stripFrom (.code .outside) previous rest
      else stripFrom (.block (c == '*')) previous rest
  | .code .outside, previous, '/' :: c :: rest =>
      if c == '/' && previous != some ':' then stripFrom .line previous rest
      else if c == '*' then stripFrom (.block false) previous rest
      else '/' :: stripFrom (.code .outside) (some '/') (c :: rest)
  | .code quoting, _, c :: rest =>
      c :: stripFrom (.code (quoting.step c)) (some c) rest

/-- Only a `/` outside of strings can be left out by a reader of code. -/
theorem stripFrom_keep {quoting : Quoting} {previous : Option Char}
    {c : Char} {rest : Text} (plain : quoting = .outside → c ≠ '/') :
    stripFrom (.code quoting) previous (c :: rest) =
      c :: stripFrom (.code (quoting.step c)) (some c) rest := by
  rw [stripFrom]
  rintro d others outside rfl
  exact absurd rfl (plain outside)

/-- The text without its comments. -/
def strip (text : Text) : Text :=
  stripFrom (.code .outside) none text

end Stylesheet.Comment
