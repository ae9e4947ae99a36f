import Stylesheet.Cursor.Basic
import Stylesheet.Cursor.Nesting

/-!
# Reading at a cursor

Each reader looks at the pending text and passes over what it takes.
-/

namespace Stylesheet

/-- A reader: it moves a cursor, also when it fails. -/
abbrev Reader := EStateM Error Cursor

namespace Reader

/-- Passes over a text that is known to be pending. -/
def pass (text : Text) : Reader Unit :=
  modify fun cursor => cursor.advanceBy text.length

/-- The text up to the first character at the top level that is one of `stops`,
or up to the end. -/
def readUntil (stops : List Char) : Reader Text := do
  let text := Nesting.spanUntil stops.contains {} (← get).pending
  pass text
  match (Nesting.after {} text).checkClosed with
  | .ok () => return text
  | .error error => throw error

/-- The contents of a group between `opening` and `closing`. -/
def readGroup (opening closing : Char) : Reader Text := do
  Cursor.expect opening
  let pending := (← get).pending
  match spanGroup opening closing 0 .outside pending with
  | some contents =>
      pass contents
      modify Cursor.advance
      return contents
  | none =>
      pass pending
      throw (.form (.groupOpen opening closing))

def readName : Reader Text := do
  let name := (← get).pending.takeWhile isNameChar
  pass name
  return name

def skipSpace : Reader Unit :=
  modify Cursor.skipSpace

/-- Passes over `c` if it stands here. -/
def skipChar (c : Char) : Reader Unit :=
  modify fun cursor => if cursor.isAt c then cursor.advance else cursor

/-- Passes over a word if it stands here and no longer name does. -/
def skipWord? (word : Text) : Reader Bool := do
  match word.isPrefixOf? (← get).pending with
  | none => return false
  | some rest =>
      if (rest.head?.map isNameChar).getD false then return false
      pass word
      return true

end Reader

end Stylesheet
