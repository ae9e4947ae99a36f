import Stylesheet.Error

/-!
# Cursors

A cursor stands on a character of a text that is spliced together from several
sources: the bodies of mixins, imported files and chosen branches are put in
front of what is still to be read.  It knows the file and line of the source it
reads from, and remembers the characters before it for error reports.
-/

namespace Stylesheet

/-- What is left of a text to read, the file it comes from, and the line of its
next character.  Lines are counted without bound; a counter of 32 bits agrees up
to line 2 ^ 32 - 1. -/
structure Source where
  text : Text
  file : Option Text
  line : Nat
  deriving DecidableEq, Repr

/-- A position in spliced text.  `current` has been taken from `top`; when `top`
runs out, reading goes on in `below`.  `recent` holds the last characters
passed, the latest first. -/
structure Cursor where
  current : Option Char := none
  top : Source
  below : List Source := []
  index : Nat := 0
  recent : Text := []
  deriving DecidableEq, Repr

namespace Cursor

/-- The most sources that can be spliced together. -/
def maxSources : Nat := 256

/-- The number of characters shown on either side of an error. -/
def contextLength : Nat := 40

/-- A cursor before the first character of a text. -/
def ofText (text : Text) (file : Option Text) : Cursor :=
  { top := { text, file, line := 1 } }

def file (cursor : Cursor) : Option Text :=
  cursor.top.file

def line (cursor : Cursor) : Nat :=
  cursor.top.line

/-- The unread text of a stack of sources. -/
def unread (top : Source) : List Source → Text
  | [] => top.text
  | next :: below => top.text ++ unread next below

/-- The characters still to be passed, from the current one on. -/
def pending (cursor : Cursor) : Text :=
  match cursor.current with
  | some c => c :: unread cursor.top cursor.below
  | none => unread cursor.top cursor.below

/-- Takes the next character.  Sources that have run out are given up, except
for the last one. -/
def draw (top : Source) (below : List Source) :
    Option Char × Source × List Source :=
  match below, top.text with
  | below, c :: rest =>
      (some c,
        { top with text := rest, line := if c == '\n' then top.line + 1
                     else top.line },
        below)
  | [], [] => (none, top, [])
  | next :: below, [] => draw next below

/-- The characters passed, after one more. -/
def remember (recent : Text) : Option Char → Text
  | some c => (c :: recent).take contextLength
  | none => recent

/-- Moves to the next character. -/
def advance (cursor : Cursor) : Cursor :=
  let (current, top, below) := draw cursor.top cursor.below
  { current, top, below
    index := if current.isSome then cursor.index + 1 else cursor.index
    recent := remember cursor.recent cursor.current }

/-- Moves on by `count` characters. -/
def advanceBy (cursor : Cursor) : Nat → Cursor
  | 0 => cursor
  | count + 1 => cursor.advance.advanceBy count

/-- The character after the current one, or after `count` further ones. -/
def peek (cursor : Cursor) (count : Nat) : Option Char :=
  (unread cursor.top cursor.below)[count]?

def isAt (cursor : Cursor) (c : Char) : Bool :=
  cursor.current == some c

/-- Gives the current character back to its source. -/
def putBack (cursor : Cursor) : Cursor :=
  match cursor.current with
  | none => cursor
  | some c =>
      { cursor with
        current := none
        top := { cursor.top with
          text := c :: cursor.top.text
          line := if c == '\n' then cursor.top.line - 1 else cursor.top.line }
        index := cursor.index - 1 }

/-- Splices a source in front of the current character and moves to its first
character. -/
def insert (cursor : Cursor) (source : Source) : Except Error Cursor :=
  if maxSources ≤ cursor.below.length + 1 then .error (.endless .expansion)
  else
    let cursor := cursor.putBack
    .ok
      { cursor with top := source, below := cursor.top :: cursor.below }.advance

/-- Passes over white space. -/
def skipSpace (cursor : Cursor) : Cursor :=
  match cursor.current with
  | none => cursor
  | some _ => cursor.advanceBy (cursor.pending.takeWhile isSpace).length

/-- Passes over `c`, or fails if something else stands there. -/
def expect (c : Char) : EStateM Error Cursor Unit := fun cursor =>
  if cursor.isAt c then .ok () cursor.advance
  else .error (.form (.charExpected c cursor.current)) cursor

/-- The position for an error report. -/
def location (cursor : Cursor) : Location where
  file := cursor.file
  line := cursor.line
  offset := cursor.index
  before := cursor.recent.reverse
  after :=
    match cursor.current with
    | some _ => cursor.pending.take contextLength
    | none => []

end Cursor

end Stylesheet
