import Stylesheet.Proofs.LazyCursor

/-!
# Reading a page

A page is a plain text with a position in it: the characters passed, and the
characters still to come.  Those still to come are kept passage by passage only
to know the file and the line.  Whatever is asked of a lazy cursor, it answers
as the page does; only the line numbers of the cursor have to fit into 32 bits.
-/

namespace Stylesheet

/-- A text that was spliced in, and how many of its characters have been
passed. -/
structure Passage where
  text : Text
  passed : Nat := 0
  file : Option Text
  start : Nat
  deriving DecidableEq, Repr

namespace Passage

/-- The characters still to come. -/
def left (passage : Passage) : Text :=
  passage.text.drop passage.passed

/-- The line after as many characters. -/
def lineAfter (passage : Passage) (count : Nat) : Nat :=
  passage.start + (passage.text.take count).count '\n'

def source (passage : Passage) : Source where
  text := passage.left
  file := passage.file
  line := passage.lineAfter passage.passed

def step (passage : Passage) : Passage :=
  { passage with passed := passage.passed + 1 }

theorem left_step (passage : Passage) :
    passage.step.left = passage.left.tail := by
  simp [left, step]

theorem source_step_of_ended {passage : Passage} (ended : passage.left = []) :
    passage.step.source = passage.source := by
  have short : passage.text.length ≤ passage.passed :=
    List.drop_eq_nil_iff.mp ended
  have whole : passage.text.take (passage.passed + 1) =
      passage.text.take passage.passed := by
    rw [List.take_of_length_le short, List.take_of_length_le (by omega)]
  have text : passage.step.left = passage.left := by
    rw [left_step, ended, List.tail_nil]
  simp only [source, text, lineAfter]
  simp only [step, whole]

theorem source_step {passage : Passage} {c : Char} {rest : Text}
    (first : passage.left = c :: rest) :
    passage.step.source =
      { passage.source with
        text := rest
        line := if c == '\n' then passage.source.line + 1
          else passage.source.line } := by
  have text : passage.step.left = rest := by
    rw [left_step, first, List.tail_cons]
  have taken : passage.text.take (passage.passed + 1) =
      passage.text.take passage.passed ++ [c] := by
    have found : passage.text[passage.passed]? = some c := by
      rw [← List.head?_drop]
      exact congrArg List.head? first
    rw [List.take_add_one, found, Option.toList_some]
  simp only [source, text, lineAfter]
  simp only [step, taken, List.count_append, List.count_singleton]
  split <;> simp [Nat.add_assoc]

end Passage

/-- A plain text with a position in it.  A passage that has been passed whole is
given up, unless it is the last. -/
structure Page where
  passed : Text := []
  top : Passage
  below : List Passage := []
  settled : top.left = [] → below = []

namespace Page

def ofText (text : Text) (file : Option Text) : Page where
  top := { text, file, start := 1 }
  settled _ := rfl

/-- Gives up the passages that have been passed whole. -/
def settle (passed : Text) (top : Passage) : (below : List Passage) → Page
  | [] => { passed, top, settled _ := rfl }
  | next :: below =>
      if ended : top.left = [] then settle passed next below
      else
        { passed, top, below := next :: below,
          settled left := absurd left ended }

/-- The characters still to come. -/
def pending (page : Page) : Text :=
  (page.top :: page.below).flatMap Passage.left

def depth (page : Page) : Nat :=
  page.below.length + 1

def file (page : Page) : Option Text :=
  page.top.file

/-- The line on which the passage starts, and the line ends in it up to the
current character. -/
def line (page : Page) : Nat :=
  page.top.lineAfter (page.top.passed + 1)

/-- The number of the current character. -/
def index (page : Page) : Nat :=
  page.passed.length + page.pending.head?.toList.length

/-- Passes the current character. -/
def advance (page : Page) : Page :=
  match page.pending.head? with
  | none => page
  | some c => settle (page.passed ++ [c]) page.top.step page.below

def advanceBy (page : Page) : Nat → Page
  | 0 => page
  | count + 1 => page.advance.advanceBy count

/-- Puts a text in front of what is still to come. -/
def insert (page : Page) (text : Text) (file : Option Text) (start : Nat) :
    Except Error Page :=
  if Cursor.maxSources ≤ page.depth then .error (.endless .expansion)
  else .ok (settle page.passed { text, file, start } (page.top :: page.below))

def location (page : Page) : Location where
  file := page.file
  line := page.line
  offset := page.index
  before := page.passed.drop (page.passed.length - Cursor.contextLength)
  after := page.pending.take Cursor.contextLength

@[simp] theorem passed_settle (passed : Text) (top : Passage)
    (below : List Passage) :
    (settle passed top below).passed = passed := by
  fun_induction settle passed top below with
  | case1 => rfl
  | case2 top next below ended ih => exact ih
  | case3 => rfl

theorem pending_settle (passed : Text) (top : Passage) (below : List Passage) :
    (settle passed top below).pending =
      (top :: below).flatMap Passage.left := by
  fun_induction settle passed top below with
  | case1 => rfl
  | case2 top next below ended ih => simp [ih, ended]
  | case3 => rfl

theorem head?_pending (page : Page) :
    page.pending.head? = page.top.left.head? := by
  unfold pending
  rw [List.flatMap_cons]
  cases left : page.top.left with
  | nil => simp [page.settled left]
  | cons c rest => rfl

theorem pending_advance (page : Page) :
    page.advance.pending = page.pending.tail := by
  have head := page.head?_pending
  unfold advance
  cases first : page.pending.head? with
  | none =>
      rw [List.head?_eq_none_iff.mp first]
      rfl
  | some c =>
      rw [first] at head
      obtain ⟨rest, left⟩ := List.head?_eq_some_iff.mp head.symm
      dsimp only
      rw [pending_settle, pending, List.flatMap_cons, List.flatMap_cons,
        Passage.left_step, left]
      rfl

theorem pending_advanceBy (page : Page) (count : Nat) :
    (page.advanceBy count).pending = page.pending.drop count := by
  induction count generalizing page with
  | zero => rfl
  | succ count ih => rw [advanceBy, ih, pending_advance, List.drop_tail]

theorem pending_insert {page after : Page} {text : Text}
    {file : Option Text} {start : Nat}
    (inserted : page.insert text file start = .ok after) :
    after.pending = text ++ page.pending := by
  unfold insert at inserted
  split at inserted
  · simp at inserted
  · simp only [Except.ok.injEq] at inserted
    rw [← inserted, pending_settle]
    rfl

/-- The cursor that has been moved to where a page is read. -/
def cursor (page : Page) : Cursor where
  current := page.pending.head?
  top := page.top.step.source
  below := page.below.map Passage.source
  index := page.index
  recent := page.passed.reverse.take Cursor.contextLength

private theorem draw_settle (passed : Text) (top : Passage)
    (below : List Passage) :
    Cursor.draw top.source (below.map Passage.source) =
      ((settle passed top below).cursor.current,
        (settle passed top below).cursor.top,
          (settle passed top below).cursor.below) := by
  fun_induction settle passed top below with
  | case1 top =>
      simp only [cursor, head?_pending, List.map_nil]
      cases left : top.left with
      | nil =>
          rw [Cursor.draw_last left, Passage.source_step_of_ended left]; rfl
      | cons c rest => rw [Cursor.draw_cons left, Passage.source_step left]; rfl
  | case2 top next below ended ih =>
      rw [List.map_cons, Cursor.draw_next ended, ih]
  | case3 top next below going =>
      simp only [cursor, head?_pending]
      cases left : top.left with
      | nil => exact absurd left going
      | cons c rest => rw [Cursor.draw_cons left, Passage.source_step left]; rfl

theorem ready_cursor (page : Page) : page.cursor.Ready := by
  intro ended
  change page.pending.head? = none at ended
  rw [head?_pending, List.head?_eq_none_iff] at ended
  refine ⟨?_, ?_⟩
  · change page.top.step.left = []
    rw [Passage.left_step, ended, List.tail_nil]
  · change page.below.map Passage.source = []
    rw [page.settled ended, List.map_nil]

private theorem layers_cursor (page : Page) :
    page.cursor.layers = (page.top :: page.below).map Passage.left := by
  simp only [Cursor.layers, cursor, head?_pending, List.map_map, List.map_cons]
  congr 1
  change _ ++ page.top.step.left = _
  rw [Passage.left_step]
  cases page.top.left with
  | nil => rfl
  | cons c rest => rfl

theorem pending_cursor (page : Page) : page.cursor.pending = page.pending := by
  rw [← Cursor.flatten_layers, layers_cursor, pending, List.flatMap_def]

private theorem recent_passed (passed : Text) (c : Char) :
    Cursor.remember (passed.reverse.take Cursor.contextLength) (some c) =
      (passed ++ [c]).reverse.take Cursor.contextLength := by
  simp [Cursor.remember, Cursor.contextLength, List.take_take]

theorem cursor_settle (passed : Text) (top : Passage) (below : List Passage) :
    ({ top := top.source, below := below.map Passage.source,
       index := passed.length
       recent := passed.reverse.take Cursor.contextLength } : Cursor).advance =
      (settle passed top below).cursor := by
  unfold Cursor.advance
  dsimp only
  rw [draw_settle passed top below]
  simp only [cursor, index, passed_settle, Cursor.remember]
  cases (settle passed top below).pending.head? with
  | none => rfl
  | some c => rfl

theorem cursor_advance (page : Page) :
    page.cursor.advance = page.advance.cursor := by
  unfold advance
  cases first : page.pending.head? with
  | none =>
      refine Cursor.advance_of_ended page.ready_cursor ?_
      rw [pending_cursor]
      exact List.head?_eq_none_iff.mp first
  | some c =>
      rw [← cursor_settle]
      simp only [cursor, first, Cursor.advance, index, recent_passed]
      simp [Cursor.remember]

/-- Giving the current character back undoes what taking it did to the line. -/
theorem putBack_cursor (page : Page) :
    page.cursor.putBack =
      { top := page.top.source
        below := page.below.map Passage.source
        index := page.passed.length
        recent := page.passed.reverse.take Cursor.contextLength } := by
  have head := page.head?_pending
  unfold Cursor.putBack
  cases first : page.pending.head? with
  | none =>
      rw [first] at head
      have ended : page.top.left = [] := List.head?_eq_none_iff.mp head.symm
      simp [cursor, first, index, Passage.source_step_of_ended ended]
  | some c =>
      rw [first] at head
      obtain ⟨rest, left⟩ := List.head?_eq_some_iff.mp head.symm
      have text : page.top.source.text = c :: rest := left
      simp only [cursor, first, index, Passage.source_step left]
      cases source : page.top.source
      split <;> simp_all

theorem cursor_insert (page : Page) (text : Text) (file : Option Text)
    (start : Nat) :
    page.cursor.insert ⟨text, file, start⟩ =
      (page.insert text file start).map cursor := by
  have depth : page.cursor.below.length + 1 = page.depth := by
    simp [cursor, Page.depth]
  unfold Cursor.insert insert
  rw [depth]
  split
  · rfl
  · simp only [Except.map, Except.ok.injEq]
    rw [← cursor_settle, putBack_cursor]
    rfl

theorem cursor_advanceBy (page : Page) (count : Nat) :
    page.cursor.advanceBy count = (page.advanceBy count).cursor := by
  induction count generalizing page with
  | zero => rfl
  | succ count ih => rw [Cursor.advanceBy, cursor_advance, ih, advanceBy]

theorem cursor_location (page : Page) :
    page.cursor.location = page.location := by
  have before : (page.passed.reverse.take Cursor.contextLength).reverse =
      page.passed.drop (page.passed.length - Cursor.contextLength) := by
    rw [List.take_reverse, List.reverse_reverse]
  have after : page.cursor.location.after =
      page.pending.take Cursor.contextLength := by
    have current : page.cursor.current = page.pending.head? := rfl
    unfold Cursor.location
    rw [pending_cursor, current]
    cases first : page.pending.head? with
    | none => rw [List.head?_eq_none_iff.mp first, List.take_nil]
    | some c => rfl
  exact Location.mk.injEq .. ▸ ⟨rfl, rfl, rfl, before, after⟩

private theorem peek_cursor (page : Page) (count : Nat) :
    page.cursor.peek count = page.pending[count + 1]? := by
  have whole := page.pending_cursor
  have ended := page.ready_cursor
  unfold Cursor.pending at whole
  unfold Cursor.peek
  cases first : page.cursor.current with
  | none =>
      obtain ⟨text, below⟩ := ended first
      simp only [first] at whole
      rw [← whole]
      simp [text, below, Cursor.unread]
  | some c =>
      simp only [first] at whole
      rw [← whole, List.getElem?_cons_succ]

end Page

/-- What can be asked of a cursor. -/
inductive Operation where
  | advance
  | peek
  | peekNth (count : Nat)
  | insert (text : Text) (file : Option Text) (line : UInt32)
  | insertFeed (feed : Feed) (file : Option Text)
  | skipSpace
  | expect (c : Char)
  | location
  deriving DecidableEq, Repr

def Operation.isLasting : Operation → Bool
  | .insertFeed feed _ => feed.isLasting
  | _ => true

/-- Operations that only look. -/
def Operation.isLook : Operation → Bool
  | .peek | .peekNth _ | .location => true
  | _ => false

/-- What a cursor answers: a character, whether it has moved, whether it has
failed, or where it is. -/
inductive Answer where
  | character (c : Option Char)
  | moved (any : Bool)
  | verdict (failure : Option Error)
  | position (location : Location)

/-- What can be seen of a cursor without asking. -/
structure Sight where
  current : Option Char
  index : Nat
  line : Nat
  file : Option Text
  deriving DecidableEq, Repr

/-- Two sights are the same, but for a line number that does not fit into 32
bits. -/
structure Sight.Agrees (sight plain : Sight) : Prop where
  current : sight.current = plain.current
  index : sight.index = plain.index
  line : plain.line < UInt32.size → sight.line = plain.line
  file : sight.file = plain.file

/-- Two answers are the same, but for line numbers that do not fit into 32
bits. -/
inductive Answer.Agrees : Answer → Answer → Prop where
  | same (answer : Answer) : Agrees answer answer
  | position {location plain : Location} (agrees : location.Agrees plain) :
      Agrees (.position location) (.position plain)

/-- Answers and sights agree one by one. -/
def TracesAgree (trace plain : List (Answer × Sight)) : Prop :=
  List.Forall₂
    (fun shown plain => shown.1.Agrees plain.1 ∧ shown.2.Agrees plain.2)
    trace plain

namespace LazyCursor

def sight (cursor : LazyCursor) : Sight :=
  ⟨cursor.current, cursor.index, cursor.line.toNat, cursor.file⟩

def verdict (cursor : LazyCursor) (action : EStateM Error LazyCursor Unit) :
    Answer × LazyCursor :=
  match action cursor with
  | .ok _ after => (.verdict none, after)
  | .error error after => (.verdict (some error), after)

def perform (cursor : LazyCursor) : Operation → Answer × LazyCursor
  | .advance => (.character cursor.advance.current, cursor.advance)
  | .peek => (.character cursor.peek.1, cursor.peek.2)
  | .peekNth count =>
      (.character (cursor.peekNth count).1, (cursor.peekNth count).2)
  | .insert text file line => cursor.verdict (insert text file line)
  | .insertFeed feed file => cursor.verdict (insertFeed feed file 1)
  | .skipSpace => (.moved cursor.skipSpace.1, cursor.skipSpace.2)
  | .expect c => cursor.verdict (expect c)
  | .location => (.position cursor.location.1, cursor.location.2)

def after (cursor : LazyCursor) (operations : List Operation) : LazyCursor :=
  operations.foldl (fun cursor operation => (cursor.perform operation).2) cursor

/-- The answers to a sequence of operations, each with what can be seen after
it. -/
def trace (cursor : LazyCursor) : List Operation → List (Answer × Sight)
  | [] => []
  | operation :: later =>
      ((cursor.perform operation).1, (cursor.perform operation).2.sight) ::
        trace (cursor.perform operation).2 later

end LazyCursor

namespace Page

def sight (page : Page) : Sight :=
  ⟨page.pending.head?, page.index, page.line, page.file⟩

def verdict (page : Page) : Except Error Page → Answer × Page
  | .ok after => (.verdict none, after)
  | .error error => (.verdict (some error), page)

def perform (page : Page) : Operation → Answer × Page
  | .advance => (.character page.pending[1]?, page.advance)
  | .peek => (.character page.pending[1]?, page)
  | .peekNth count => (.character page.pending[count + 1]?, page)
  | .insert text file line => page.verdict (page.insert text file line.toNat)
  | .insertFeed feed file => page.verdict (page.insert feed.unread file 1)
  | .skipSpace =>
      (.moved (page.pending.head?.any isSpace),
        page.advanceBy (page.pending.takeWhile isSpace).length)
  | .expect c =>
      page.verdict
        (if page.pending.head? = some c then .ok page.advance
          else .error (.form (.charExpected c page.pending.head?)))
  | .location => (.position page.location, page)

def after (page : Page) (operations : List Operation) : Page :=
  operations.foldl (fun page operation => (page.perform operation).2) page

def trace (page : Page) : List Operation → List (Answer × Sight)
  | [] => []
  | operation :: later =>
      ((page.perform operation).1, (page.perform operation).2.sight) ::
        trace (page.perform operation).2 later

end Page

namespace LazyCursor

/-- A lazy cursor stands where a page is read. -/
def Reads (cursor : LazyCursor) (page : Page) : Prop :=
  cursor.Stands page.cursor

variable {cursor other : LazyCursor} {page : Page}

theorem Reads.current (reads : cursor.Reads page) :
    cursor.current = page.pending.head? :=
  Stands.current reads

theorem Reads.pending (reads : cursor.Reads page) :
    cursor.pending = page.pending := by
  rw [Stands.pending reads, page.pending_cursor]

theorem Reads.sight (reads : cursor.Reads page) :
    cursor.sight.Agrees page.sight where
  current := reads.current
  index := Stands.index reads
  line := (Stands.top reads).line
  file := (Stands.top reads).file

theorem Reads.depth (reads : cursor.Reads page) :
    cursor.depth = page.depth := by
  rw [Stands.depth reads, Page.cursor, List.length_map, Page.depth]

theorem Reads.advance (reads : cursor.Reads page) :
    cursor.advance.Reads page.advance := by
  rw [Reads, ← page.cursor_advance]
  exact Stands.advance reads

theorem Reads.peekNth (reads : cursor.Reads page) (count : Nat) :
    (cursor.peekNth count).1 = page.pending[count + 1]? ∧
      (cursor.peekNth count).2.Reads page := by
  obtain ⟨answer, still⟩ := Stands.peekNth reads count
  exact ⟨answer.trans (page.peek_cursor count), still⟩

/-- A feed is refused if there is no room for it; otherwise its text is put in
front. -/
theorem Reads.insertFeed (reads : cursor.Reads page) {feed : Feed}
    (lasting : feed.isLasting = true) (file : Option Text) (line : UInt32) :
    match page.insert feed.unread file line.toNat with
    | .ok next => ∃ after,
        LazyCursor.insertFeed feed file line cursor = .ok () after ∧
          after.Reads next
    | .error error =>
        LazyCursor.insertFeed feed file line cursor = .error error cursor := by
  have spliced := Stands.insertFeed reads lasting file line
  rw [page.cursor_insert] at spliced
  cases inserted : page.insert feed.unread file line.toNat with
  | ok next =>
      rw [inserted] at spliced
      rcases spliced with ⟨impossible, -⟩ | ⟨after, moved, done, same, stands⟩
      · simp [Except.map] at impossible
      · obtain rfl : next.cursor = moved := Except.ok.inj same
        exact ⟨after, done, stands⟩
  | error error =>
      rw [inserted] at spliced
      rcases spliced with ⟨refused, done⟩ | ⟨after, moved, -, impossible, -⟩
      · obtain rfl := Except.error.inj refused
        exact done
      · simp [Except.map] at impossible

theorem Reads.skipSpace (reads : cursor.Reads page) :
    cursor.skipSpace.1 = page.pending.head?.any isSpace ∧
      cursor.skipSpace.2.Reads
        (page.advanceBy (page.pending.takeWhile isSpace).length) := by
  obtain ⟨answer, moved⟩ := Stands.skipSpace reads page.ready_cursor
  refine ⟨answer, ?_⟩
  rwa [Cursor.skipSpace_eq page.ready_cursor, page.pending_cursor,
    page.cursor_advanceBy] at moved

theorem Reads.location (reads : cursor.Reads page) :
    cursor.location.1.Agrees page.location ∧
      cursor.location.2.Reads page := by
  obtain ⟨answer, still⟩ := Stands.location reads
  exact ⟨page.cursor_location ▸ answer, still⟩

theorem Reads.expect (reads : cursor.Reads page) (c : Char) :
    if page.pending.head? = some c then
      ∃ after, LazyCursor.expect c cursor = .ok () after ∧
        after.Reads page.advance
    else
      LazyCursor.expect c cursor =
        .error (.form (.charExpected c page.pending.head?)) cursor := by
  unfold LazyCursor.expect
  rw [reads.current]
  split
  · exact ⟨cursor.advance, by simp [*], reads.advance⟩
  · simp [*]

theorem Reads.verdict_insertFeed (reads : cursor.Reads page) {feed : Feed}
    (lasting : feed.isLasting = true) (file : Option Text) (line : UInt32) :
    (cursor.verdict (LazyCursor.insertFeed feed file line)).1 =
        (page.verdict (page.insert feed.unread file line.toNat)).1 ∧
      (cursor.verdict (LazyCursor.insertFeed feed file line)).2.Reads
        (page.verdict (page.insert feed.unread file line.toNat)).2 := by
  have spliced := reads.insertFeed lasting file line
  unfold LazyCursor.verdict
  cases inserted : page.insert feed.unread file line.toNat with
  | ok next =>
      rw [inserted] at spliced
      obtain ⟨after, done, read⟩ := spliced
      rw [done]
      exact ⟨rfl, read⟩
  | error error =>
      rw [inserted] at spliced
      simp only at spliced
      rw [spliced]
      exact ⟨rfl, reads⟩

/-- Whatever is asked, the cursor answers as the page does. -/
theorem Reads.perform (reads : cursor.Reads page) {operation : Operation}
    (lasting : operation.isLasting = true) :
    (cursor.perform operation).1.Agrees (page.perform operation).1 ∧
      (cursor.perform operation).2.Reads (page.perform operation).2 := by
  have agrees {answer plain : Answer} (same : answer = plain) :
      answer.Agrees plain := same ▸ .same answer
  cases operation with
  | advance =>
      refine ⟨agrees ?_, reads.advance⟩
      simp only [LazyCursor.perform, Page.perform, reads.advance.current,
        page.pending_advance, List.head?_tail]
  | peek =>
      obtain ⟨answer, read⟩ := reads.peekNth 0
      exact ⟨agrees (congrArg Answer.character answer), read⟩
  | peekNth count =>
      obtain ⟨answer, read⟩ := reads.peekNth count
      exact ⟨agrees (congrArg Answer.character answer), read⟩
  | insert text file line =>
      have spliced :=
        reads.verdict_insertFeed (Feed.isLasting_ofText text) file line
      rw [Feed.unread_ofText] at spliced
      exact ⟨agrees spliced.1, spliced.2⟩
  | insertFeed feed file =>
      have spliced := reads.verdict_insertFeed lasting file 1
      exact ⟨agrees spliced.1, spliced.2⟩
  | skipSpace =>
      obtain ⟨answer, read⟩ := reads.skipSpace
      exact ⟨agrees (congrArg Answer.moved answer), read⟩
  | expect c =>
      have expected := reads.expect c
      simp only [LazyCursor.perform, Page.perform, LazyCursor.verdict]
      by_cases standing : page.pending.head? = some c
      · rw [if_pos standing] at expected ⊢
        obtain ⟨after, done, read⟩ := expected
        rw [done]
        exact ⟨agrees rfl, read⟩
      · rw [if_neg standing] at expected ⊢
        rw [expected]
        exact ⟨agrees rfl, reads⟩
  | location =>
      obtain ⟨answer, read⟩ := reads.location
      exact ⟨.position answer, read⟩

theorem Reads.after (reads : cursor.Reads page) {operations : List Operation}
    (lasting : ∀ operation ∈ operations, operation.isLasting = true) :
    (cursor.after operations).Reads (page.after operations) := by
  induction operations generalizing cursor page with
  | nil => exact reads
  | cons operation later ih =>
      exact ih (reads.perform (lasting operation (by simp))).2
        fun other member => lasting other (by simp [member])

theorem Reads.trace (reads : cursor.Reads page) {operations : List Operation}
    (lasting : ∀ operation ∈ operations, operation.isLasting = true) :
    TracesAgree (cursor.trace operations) (page.trace operations) := by
  induction operations generalizing cursor page with
  | nil => exact .nil
  | cons operation later ih =>
      obtain ⟨answer, read⟩ := reads.perform (lasting operation (by simp))
      exact .cons ⟨answer, read.sight⟩
        (ih read fun other member => lasting other (by simp [member]))

private theorem reads_ofFeed {feed : Feed} (file : Option Text)
    (lasting : feed.isLasting = true) :
    (ofFeed feed file).advance.Reads (.ofText feed.unread file) := by
  have moved : (Cursor.ofText feed.unread file).advance =
      (Page.ofText feed.unread file).cursor :=
    Page.cursor_settle [] { text := feed.unread, file, start := 1 } []
  rw [Reads, ← moved]
  exact (stands_ofFeed file lasting).advance

theorem Alike.sight (alike : cursor.Alike other) :
    cursor.sight = other.sight := by
  rw [LazyCursor.sight, LazyCursor.sight, alike.current,
    alike.index, alike.line, alike.file]

theorem Alike.verdict_insertFeed (alike : cursor.Alike other) {feed : Feed}
    (lasting : feed.isLasting = true) (file : Option Text) (line : UInt32) :
    (cursor.verdict (LazyCursor.insertFeed feed file line)).1 =
        (other.verdict (LazyCursor.insertFeed feed file line)).1 ∧
      (cursor.verdict (LazyCursor.insertFeed feed file line)).2.Alike
        (other.verdict (LazyCursor.insertFeed feed file line)).2 := by
  unfold LazyCursor.verdict
  rw [insertFeed_eq, insertFeed_eq, alike.depth]
  by_cases full : Cursor.maxSources ≤ other.depth
  · rw [if_pos full, if_pos full]
    exact ⟨rfl, alike⟩
  · rw [if_neg full, if_neg full]
    exact ⟨rfl, (alike.spliced lasting file line).advance⟩

/-- How far a cursor has looked ahead makes no difference to its answers. -/
theorem Alike.perform (alike : cursor.Alike other) {operation : Operation}
    (lasting : operation.isLasting = true) :
    (cursor.perform operation).1 = (other.perform operation).1 ∧
      (cursor.perform operation).2.Alike (other.perform operation).2 := by
  have peeked (count : Nat) :
      (cursor.peekNth count).1 = (other.peekNth count).1 ∧
        (cursor.peekNth count).2.Alike (other.peekNth count).2 := by
    obtain ⟨first, left⟩ := alike.lasting.peekNth count
    obtain ⟨second, right⟩ := alike.also.peekNth count
    refine
      ⟨by rw [first, second, alike.unread], left.lasting, right.lasting, ?_⟩
    rw [left.settled, right.settled, alike.settled]
  cases operation with
  | advance =>
      exact ⟨congrArg Answer.character alike.advance.current, alike.advance⟩
  | peek => exact ⟨congrArg Answer.character (peeked 0).1, (peeked 0).2⟩
  | peekNth count =>
      exact ⟨congrArg Answer.character (peeked count).1, (peeked count).2⟩
  | insert text file line =>
      exact alike.verdict_insertFeed (Feed.isLasting_ofText text) file line
  | insertFeed feed file => exact alike.verdict_insertFeed lasting file 1
  | skipSpace =>
      obtain ⟨answer, after⟩ := alike.skipSpace
      exact ⟨congrArg Answer.moved answer, after⟩
  | expect c =>
      simp only [LazyCursor.perform, LazyCursor.verdict, LazyCursor.expect,
        alike.current]
      by_cases standing : (other.current == some c) = true
      · rw [if_pos standing, if_pos standing]
        exact ⟨rfl, alike.advance⟩
      · rw [if_neg standing, if_neg standing]
        exact ⟨rfl, alike⟩
  | location =>
      obtain ⟨answer, after⟩ := alike.location
      exact ⟨congrArg Answer.position answer, after⟩

theorem Alike.trace (alike : cursor.Alike other) {operations : List Operation}
    (lasting : ∀ operation ∈ operations, operation.isLasting = true) :
    cursor.trace operations = other.trace operations := by
  induction operations generalizing cursor other with
  | nil => rfl
  | cons operation later ih =>
      obtain ⟨answer, after⟩ := alike.perform (lasting operation (by simp))
      rw [LazyCursor.trace, LazyCursor.trace, answer, after.sight,
        ih after fun other member => lasting other (by simp [member])]

end LazyCursor

namespace Page

theorem depth_settle (passed : Text) (top : Passage) (below : List Passage) :
    (settle passed top below).depth ≤ below.length + 1 := by
  fun_induction settle passed top below with
  | case1 => exact Nat.le_refl _
  | case2 top next below ended ih => exact Nat.le_succ_of_le ih
  | case3 => exact Nat.le_refl _

theorem depth_advance (page : Page) : page.advance.depth ≤ page.depth := by
  unfold advance
  split
  · exact Nat.le_refl _
  · exact depth_settle _ _ _

theorem depth_advanceBy (page : Page) (count : Nat) :
    (page.advanceBy count).depth ≤ page.depth := by
  induction count generalizing page with
  | zero => exact Nat.le_refl _
  | succ count ih => exact Nat.le_trans (ih page.advance) page.depth_advance

theorem depth_insert {page : Page}
    (room : page.depth ≤ Cursor.maxSources) (text : Text) (file : Option Text)
    (start : Nat) :
    (page.verdict (page.insert text file start)).2.depth ≤
      Cursor.maxSources := by
  unfold insert
  split
  · exact room
  · have deeper :=
      depth_settle page.passed { text, file, start } (page.top :: page.below)
    simp only [verdict, List.length_cons, depth] at deeper ⊢
    rename_i space
    unfold depth at space
    omega

theorem depth_perform {page : Page} (room : page.depth ≤ Cursor.maxSources)
    (operation : Operation) :
    (page.perform operation).2.depth ≤ Cursor.maxSources := by
  cases operation with
  | advance => exact Nat.le_trans page.depth_advance room
  | peek => exact room
  | peekNth count => exact room
  | insert text file line => exact depth_insert room text file line.toNat
  | insertFeed feed file => exact depth_insert room feed.unread file 1
  | skipSpace => exact Nat.le_trans (page.depth_advanceBy _) room
  | expect c =>
      simp only [perform]
      split
      · exact Nat.le_trans page.depth_advance room
      · exact room
  | location => exact room

theorem depth_after {page : Page} (room : page.depth ≤ Cursor.maxSources)
    (operations : List Operation) :
    (page.after operations).depth ≤ Cursor.maxSources := by
  induction operations generalizing page with
  | nil => exact room
  | cons operation later ih => exact ih (depth_perform room operation)

end Page

namespace LazyCursor

variable {cursor : LazyCursor} {page : Page}

/-- Nothing that is seen or asked tells two cursors apart. -/
def Indistinguishable (cursor other : LazyCursor) : Prop :=
  cursor.sight = other.sight ∧
    ∀ operations : List Operation,
    (∀ operation ∈ operations, operation.isLasting = true) →
      cursor.trace operations = other.trace operations

/-- A lazy cursor shows a page: it is at the first of the pending characters,
which are those of the page. -/
structure Shows (cursor : LazyCursor) (page : Page) : Prop where
  current : cursor.current = cursor.pending.head?
  pending : cursor.pending = page.pending
  answers : ∀ operations : List Operation,
    (∀ operation ∈ operations, operation.isLasting = true) →
      TracesAgree (cursor.trace operations) (page.trace operations)
  advance : cursor.advance.pending = cursor.pending.tail
  peek : cursor.peek.1 = cursor.pending[1]?
  peekNth : ∀ count, (cursor.peekNth count).1 = cursor.pending[count + 1]?
  looking : ∀ operation : Operation, operation.isLook = true →
    (cursor.perform operation).2.Indistinguishable cursor
  skipSpace : cursor.skipSpace.2.pending = cursor.pending.dropWhile isSpace
  insert : cursor.depth < Cursor.maxSources → ∀ text file line,
    ∃ after, LazyCursor.insert text file line cursor = .ok () after ∧
      after.pending = text ++ cursor.pending
  insertFeed : cursor.depth < Cursor.maxSources → ∀ feed : Feed,
    feed.isLasting = true →
    ∀ file line, ∃ after, LazyCursor.insertFeed feed file line cursor =
      .ok () after ∧
      after.pending = feed.unread ++ cursor.pending
  room : cursor.depth ≤ Cursor.maxSources
  full : cursor.depth = Cursor.maxSources → ∀ feed file line,
    LazyCursor.insertFeed feed file line cursor =
      .error (.endless .expansion) cursor
  index : cursor.index =
    page.passed.length + if cursor.current.isSome then 1 else 0
  before : cursor.location.1.before =
    page.passed.drop (page.passed.length - Cursor.contextLength)
  after : cursor.location.1.after = cursor.pending.take Cursor.contextLength
  line :
    let line := page.top.start +
      (page.top.text.take (page.top.passed + 1)).count '\n'
    line < UInt32.size → cursor.line.toNat = line
  file : cursor.file = page.top.file

theorem Lasting.looking (lasting : cursor.Lasting) {operation : Operation}
    (look : operation.isLook = true) :
    (cursor.perform operation).2.Indistinguishable cursor := by
  have alike : (cursor.perform operation).2.Alike cursor := by
    cases operation with
    | peek => exact (lasting.peekNth 0).2
    | peekNth count => exact (lasting.peekNth count).2
    | location => exact lasting.location.2
    | _ => simp [Operation.isLook] at look
  exact ⟨alike.sight, fun operations lasting => alike.trace lasting⟩

theorem Reads.inserted (reads : cursor.Reads page)
    (room : cursor.depth < Cursor.maxSources) {feed : Feed}
    (lasting : feed.isLasting = true) (file : Option Text) (line : UInt32) :
    ∃ after, LazyCursor.insertFeed feed file line cursor = .ok () after ∧
      after.pending = feed.unread ++ cursor.pending := by
  have spliced := reads.insertFeed lasting file line
  cases inserted : page.insert feed.unread file line.toNat with
  | ok next =>
      rw [inserted] at spliced
      obtain ⟨after, done, read⟩ := spliced
      exact ⟨after, done,
        by rw [read.pending, Page.pending_insert inserted, reads.pending]⟩
  | error error =>
      rw [reads.depth] at room
      simp [Page.insert, Nat.not_le.mpr room] at inserted

theorem Reads.shows (reads : cursor.Reads page)
    (room : page.depth ≤ Cursor.maxSources) :
    cursor.Shows page where
  current := by rw [reads.current, reads.pending]
  pending := reads.pending
  answers _ lasting := reads.trace lasting
  advance := by rw [reads.advance.pending, page.pending_advance, reads.pending]
  peek := by rw [reads.pending]; exact (reads.peekNth 0).1
  peekNth count := by rw [reads.pending]; exact (reads.peekNth count).1
  looking _ look := (Stands.lasting reads).looking look
  skipSpace := by
    rw [reads.skipSpace.2.pending, Page.pending_advanceBy, reads.pending]
    have dropped := congrArg (List.drop (page.pending.takeWhile isSpace).length)
      (@List.takeWhile_append_dropWhile _ isSpace page.pending)
    rw [List.drop_left] at dropped
    exact dropped.symm
  insert space text file line := by
    have inserted := reads.inserted space (Feed.isLasting_ofText text) file line
    rwa [Feed.unread_ofText] at inserted
  insertFeed space _ lasting file line := reads.inserted space lasting file line
  room := reads.depth ▸ room
  full filled feed file line := if_pos (Nat.le_of_eq filled.symm)
  index := by
    rw [reads.current]
    refine reads.sight.index.trans ?_
    cases first : page.pending.head? <;> simp [Page.sight, Page.index, first]
  before := reads.location.1.before
  after := by
    rw [reads.pending]
    exact reads.location.1.after
  line := reads.sight.line
  file := reads.sight.file

/-- A lazy cursor over feeds that do not go on after their end is a plain text
with a position in it, after every sequence of operations.  Its line number is
that of the text as long as this fits into 32 bits. -/
theorem shows_page (feed : Feed) (lasting : feed.isLasting = true)
    (file : Option Text) (operations : List Operation)
    (lastingInserts : ∀ operation ∈ operations, operation.isLasting = true) :
    ((ofFeed feed file).advance.after operations).Shows
      ((Page.ofText feed.unread file).after operations) :=
  ((reads_ofFeed file lasting).after lastingInserts).shows
    (Page.depth_after (by simp [Page.ofText, Page.depth, Cursor.maxSources]) _)

/-- Looking ahead, splicing at a line end, and an import that ends at once. -/
def sampleOperations : List Operation :=
  [.advance, .peekNth 2, .insert ['x', '\n'] (some ['m']) 7,
    .location, .advance, .insertFeed [none] none,
    .insertFeed [some ' ', some 'y', none, none] none, .skipSpace,
    .expect 'y']

theorem shows_page_sample :
    (Feed.isLasting [some 'a', some '\n', some 'b', none] = true ∧
      ∀ operation ∈ sampleOperations, operation.isLasting = true) ∧
    ((ofFeed [some 'a', some '\n', some 'b', none] none).advance.after
      sampleOperations).pending = ['\n', '\n', 'b'] ∧
    ((ofFeed [some 'a', some '\n', some 'b', none] none).advance.after
      sampleOperations).line = 8 := by
  have shown :=
    shows_page [some 'a', some '\n', some 'b', none] (by decide) none
    sampleOperations (by decide)
  have line := shown.line (by decide)
  exact ⟨by decide, shown.pending.trans (by decide),
    UInt32.toNat_inj.mp (line.trans (by decide))⟩

/-- Line 0 follows the highest line number. -/
example :
    ((ofFeed [] none).advance.after
      [.insert ['\n', 'a'] none 4294967295]).line = 0 := by
  decide

end LazyCursor

end Stylesheet
