import Stylesheet.Cursor.Basic

/-!
# Lazy cursors

A lazy cursor asks its sources for characters one at a time, and only when they
are needed.  Characters that it has looked at before their turn wait in a queue.
What it shows is what a `Cursor` over the same texts shows.
-/

namespace Stylesheet

/-- What a source answers each time it is asked for its next character.  When
there are no more answers, it has ended. -/
abbrev Feed := List (Option Char)

namespace Feed

def ofText (text : Text) : Feed :=
  text.map some

def ask : Feed → Option Char × Feed
  | [] => (none, [])
  | answer :: later => (answer, later)

/-- The characters before the end. -/
def unread : Feed → Text
  | some c :: later => c :: unread later
  | _ => []

/-- After its end a feed has no more characters. -/
def isLasting : Feed → Bool
  | [] => true
  | some _ :: later => isLasting later
  | none :: later => later.all Option.isNone

end Feed

/-- A feed with the characters that have been looked at before their turn, the
file it comes from, and the line of its next character.  Line numbers have 32
bits. -/
structure LazySource where
  feed : Feed
  queue : Text := []
  file : Option Text
  line : UInt32
  deriving DecidableEq, Repr

namespace LazySource

/-- The line after a character.  The highest line number is followed by 0. -/
def lineAfter (line : UInt32) (c : Char) : UInt32 :=
  if c == '\n' then line + 1 else line

/-- The line before a character that is given back, at least 0. -/
def lineBefore (line : UInt32) (c : Char) : UInt32 :=
  if c == '\n' && line != 0 then line - 1 else line

/-- Puts `count` more characters into the queue, if there are so many. -/
def pull (source : LazySource) : (count : Nat) → Bool × LazySource
  | 0 => (true, source)
  | count + 1 =>
      match source.feed.ask with
      | (some c, feed) =>
          pull { source with feed, queue := source.queue ++ [c] } count
      | (none, feed) => (false, { source with feed })

/-- Sees to it that the queue holds `count` characters, if there are so many. -/
def fill (source : LazySource) (count : Nat) : Bool × LazySource :=
  source.pull (count - source.queue.length)

def take (source : LazySource) : Option Char × LazySource :=
  match source.queue with
  | c :: queue => (some c, { source with queue })
  | [] =>
      let (c, feed) := source.feed.ask
      (c, { source with feed })

/-- The most characters that are still to come. -/
def size (source : LazySource) : Nat :=
  source.queue.length + source.feed.length

def sizes : List LazySource → Nat
  | [] => 0
  | source :: others => source.size + sizes others

end LazySource

/-- A position in text spliced together from lazy sources.  `recent` holds the
last characters passed, the latest last. -/
structure LazyCursor where
  current : Option Char := none
  top : LazySource
  below : List LazySource := []
  index : Nat := 0
  recent : Text := []
  deriving DecidableEq, Repr

namespace LazyCursor

/-- A cursor before the first character of a feed. -/
def ofFeed (feed : Feed) (file : Option Text) : LazyCursor :=
  { top := { feed, file, line := 1 } }

def file (cursor : LazyCursor) : Option Text :=
  cursor.top.file

def line (cursor : LazyCursor) : UInt32 :=
  cursor.top.line

/-- The number of sources. -/
def depth (cursor : LazyCursor) : Nat :=
  cursor.below.length + 1

/-- Takes the next character.  Sources that have ended are given up, except for
the last one. -/
def draw (top : LazySource) (below : List LazySource) :
    Option Char × LazySource × List LazySource :=
  match top.take, below with
  | (some c, top), below =>
      (some c, { top with line := LazySource.lineAfter top.line c }, below)
  | (none, top), [] => (none, top, [])
  | (none, _), next :: below => draw next below

/-- The characters passed, after one more. -/
def remember (recent : Text) : Option Char → Text
  | some c =>
      (if recent.length == Cursor.contextLength then recent.drop 1
        else recent) ++ [c]
  | none => recent

/-- Moves to the next character. -/
def advance (cursor : LazyCursor) : LazyCursor :=
  let (current, top, below) := draw cursor.top cursor.below
  { current, top, below
    index := if current.isSome then cursor.index + 1 else cursor.index
    recent := remember cursor.recent cursor.current }

/-- Looks for the next character but `count` in the sources, from the top one
down. -/
def look (count : Nat) (top : LazySource) (below : List LazySource) :
    Option Char × LazySource × List LazySource :=
  match top.fill (count + 1), below with
  | (true, top), below => (top.queue[count]?, top, below)
  | (false, top), [] => (none, top, [])
  | (false, top), next :: below =>
      let (c, next, below) := look (count - top.queue.length) next below
      (c, top, next :: below)

/-- The character after the current one, or after `count` further ones. -/
def peekNth (cursor : LazyCursor) (count : Nat) : Option Char × LazyCursor :=
  let (c, top, below) := look count cursor.top cursor.below
  (c, { cursor with top, below })

def peek (cursor : LazyCursor) : Option Char × LazyCursor :=
  cursor.peekNth 0

/-- Gives the current character back to its source. -/
def putBack (cursor : LazyCursor) : LazyCursor :=
  match cursor.current with
  | none => cursor
  | some c =>
      { cursor with
        current := none
        top := { cursor.top with
          queue := c :: cursor.top.queue
          line := LazySource.lineBefore cursor.top.line c }
        index := cursor.index - 1 }

/-- Splices a feed in front of the current character and moves to its first
character. -/
def insertFeed (feed : Feed) (file : Option Text) (line : UInt32) :
    EStateM Error LazyCursor Unit := fun cursor =>
  if Cursor.maxSources ≤ cursor.depth then .error (.endless .expansion) cursor
  else
    let cursor := cursor.putBack
    .ok () { cursor with
      top := { feed, file, line }
      below := cursor.top :: cursor.below }.advance

/-- Splices a text in front of the current character. -/
def insert (text : Text) (file : Option Text) (line : UInt32) :
    EStateM Error LazyCursor Unit :=
  insertFeed (.ofText text) file line

/-- The most characters that are still to come, the current one included. -/
def size (cursor : LazyCursor) : Nat :=
  cursor.current.toList.length + cursor.top.size + LazySource.sizes cursor.below

private theorem size_draw (top : LazySource) (below : List LazySource) :
    (draw top below).1.toList.length + (draw top below).2.1.size +
        LazySource.sizes (draw top below).2.2 ≤
      top.size + LazySource.sizes below := by
  have taken (source : LazySource) :
      source.take.1.toList.length + source.take.2.size ≤ source.size := by
    unfold LazySource.take LazySource.size
    cases source.queue with
    | cons c queue =>
        simp only [Option.toList_some, List.length_cons, List.length_nil]
        omega
    | nil =>
        cases source.feed with
        | nil => simp [Feed.ask]
        | cons answer later =>
            cases answer with
            | none => simp [Feed.ask]
            | some c => simp [Feed.ask, Nat.add_comm]
  fun_induction draw top below with
  | case1 top below c rest found =>
      have smaller := taken top
      rw [found] at smaller
      simp only [LazySource.size] at smaller ⊢
      omega
  | case2 top rest found =>
      have smaller := taken top
      rw [found] at smaller
      simpa using smaller
  | case3 top rest found next below ih =>
      have smaller := taken top
      rw [LazySource.sizes]
      omega

theorem size_advance_lt {cursor : LazyCursor}
    (standing : cursor.current ≠ none) :
    cursor.advance.size < cursor.size := by
  obtain ⟨c, current⟩ := Option.ne_none_iff_exists'.mp standing
  have drawn := size_draw cursor.top cursor.below
  change (draw cursor.top cursor.below).1.toList.length +
    (draw cursor.top cursor.below).2.1.size +
    LazySource.sizes (draw cursor.top cursor.below).2.2 < _
  simp only [size, current, Option.toList_some, List.length_singleton]
  omega

/-- Passes over white space, and says whether there was any. -/
def skipSpace (cursor : LazyCursor) : Bool × LazyCursor :=
  if cursor.current.any isSpace then (true, cursor.advance.skipSpace.2)
  else (false, cursor)
termination_by cursor.size
decreasing_by
  apply size_advance_lt
  intro ended
  simp_all

/-- Passes over `c`, or fails if something else stands there. -/
def expect (c : Char) : EStateM Error LazyCursor Unit := fun cursor =>
  if cursor.current == some c then .ok () cursor.advance
  else .error (.form (.charExpected c cursor.current)) cursor

/-- Up to `count` characters from the next but `first` on. -/
def lookAhead (cursor : LazyCursor) (first : Nat) : (count : Nat) →
    Text × LazyCursor
  | 0 => ([], cursor)
  | count + 1 =>
      match cursor.peekNth first with
      | (none, cursor) => ([], cursor)
      | (some c, cursor) =>
          let (text, cursor) := lookAhead cursor (first + 1) count
          (c :: text, cursor)

/-- The position for an error report. -/
def location (cursor : LazyCursor) : Location × LazyCursor :=
  let (after, ahead) :=
    match cursor.current with
    | none => ([], cursor)
    | some c =>
        let (text, ahead) := cursor.lookAhead 0 (Cursor.contextLength - 1)
        (c :: text, ahead)
  ({ file := cursor.file, line := cursor.line.toNat, offset := cursor.index
     before := cursor.recent, after }, ahead)

end LazyCursor

end Stylesheet
