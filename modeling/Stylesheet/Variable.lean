import Stylesheet.Scope

/-!
# Variable references

A reference is a `$` with a letter or `_` behind it, and runs over the longest
row of letters, digits, `_` and `-`.  References are replaced until none is
left, since a value can bring in new ones.
-/

namespace Stylesheet.Variable

/-- Whether a name can be referred to at the start of the text after a `$`. -/
def startsReference : Text → Bool
  | c :: _ => c.isAlpha || c == '_'
  | [] => false

/-- Whether a text refers to a variable. -/
def occursIn : Text → Bool
  | [] => false
  | c :: rest => (c == '$' && startsReference rest) || occursIn rest

/-- Replaces the references of a text from left to right, after skipping the
first `pending` characters. -/
def replaceAfter : (pending : Nat) → Text → EStateM Error Scopes Text
  | _, [] => pure []
  | pending + 1, _ :: rest => replaceAfter pending rest
  | 0, c :: rest =>
      if c == '$' && startsReference rest then do
        let name := rest.takeWhile isNameChar
        let value ← Scopes.read name
        let following ← replaceAfter name.length rest
        return value ++ following
      else do
        let following ← replaceAfter 0 rest
        return c :: following

/-- Replaces every reference once. -/
def replace (text : Text) : EStateM Error Scopes Text :=
  replaceAfter 0 text

/-- Replaces references in at most `rounds` rounds. -/
def substituteWithin (whole : Text) : (rounds : Nat) → Text →
    EStateM Error Scopes Text
  | 0, text =>
      if occursIn text then throw (.endless (.variables whole)) else pure text
  | rounds + 1, text =>
      if occursIn text then do substituteWithin whole rounds (← replace text)
      else pure text

/-- The number of rounds after which a value counts as endless. -/
def maxRounds : Nat := 100

/-- Replaces references until none is left. -/
def substitute (text : Text) : EStateM Error Scopes Text :=
  substituteWithin text maxRounds text

end Stylesheet.Variable
