import Stylesheet.Text.Basic

/-!
# Templates

A text can have holes `#{ … }` for values.  A hole ends at the brace that closes
it; strings inside it do not count.
-/

namespace Stylesheet

/-- A text with holes.  `broken` stands for a hole that is never closed, and for
everything after it. -/
inductive Template where
  | done
  | char (c : Char) (rest : Template)
  | hole (inner rest : Template)
  | broken
  deriving DecidableEq, Repr

/-- Splits at the brace that closes a hole, for a text that starts inside the
hole with `depth` further braces open. -/
def spanHole (depth : Nat) : Text → Option (Text × Text)
  | [] => none
  | c :: rest =>
      if c == '}' then
        if depth == 0 then some ([], rest)
        else (spanHole (depth - 1) rest).map fun (inner, after) =>
          (c :: inner, after)
      else
        (spanHole (if c == '{' then depth + 1 else depth) rest).map
          fun (inner, after) => (c :: inner, after)

/-- A split hole is the text of its two parts around the closing brace. -/
theorem eq_of_spanHole {depth : Nat} {text inner after : Text}
    (found : spanHole depth text = some (inner, after)) :
    text = inner ++ '}' :: after := by
  induction text generalizing depth inner with
  | nil => simp [spanHole] at found
  | cons c rest ih =>
      simp only [spanHole] at found
      grind [Option.map_eq_some_iff]

theorem length_of_spanHole {depth : Nat} {text inner after : Text}
    (found : spanHole depth text = some (inner, after)) :
    text.length = inner.length + after.length + 1 := by
  simp [eq_of_spanHole found]
  omega

/-- The holes of a text, and the holes inside of them. -/
def Template.ofText : Text → Template
  | [] => .done
  | '#' :: '{' :: rest =>
      match _found : spanHole 0 rest with
      | some (inner, after) => .hole (ofText inner) (ofText after)
      | none => .broken
  | c :: rest => .char c (ofText rest)
termination_by text => text.length
decreasing_by
  · have split := length_of_spanHole ‹_›
    simp only [List.length_cons]
    omega
  · have split := length_of_spanHole ‹_›
    simp only [List.length_cons]
    omega
  · simp

end Stylesheet
