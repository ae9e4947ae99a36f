import Mathlib.Data.List.Forall2
import Stylesheet.Cursor.Lazy
import Stylesheet.Proofs.Pending

/-!
# Lazy cursors as cursors

How far a lazy cursor has looked ahead cannot be seen: it answers and moves as
the settled cursor does, which has looked at everything.  So it stands for a
`Cursor`, and each of its moves is the move of that cursor.  The lines of a
`Cursor` are counted without bound; the line number of the lazy cursor is the
same as long as it fits into 32 bits.  All this holds as long as no feed goes on
after its end.
-/

namespace Stylesheet

namespace Feed

private theorem unread_of_ended {feed : Feed}
    (ended : feed.all Option.isNone = true) :
    feed.unread = [] := by
  cases feed with
  | nil => rfl
  | cons answer later =>
      cases answer with
      | none => rfl
      | some c => simp at ended

private theorem isLasting_of_ended {feed : Feed}
    (ended : feed.all Option.isNone = true) :
    feed.isLasting = true := by
  cases feed with
  | nil => rfl
  | cons answer later =>
      cases answer with
      | none => simpa [isLasting] using ended
      | some c => simp at ended

theorem ask_lasting {feed : Feed} (lasting : feed.isLasting = true) :
    feed.ask.1 = feed.unread.head? ∧ feed.ask.2.unread = feed.unread.tail ∧
      feed.ask.2.isLasting = true := by
  cases feed with
  | nil => exact ⟨rfl, rfl, rfl⟩
  | cons answer later =>
      cases answer with
      | none => exact ⟨rfl, unread_of_ended lasting, isLasting_of_ended lasting⟩
      | some c => exact ⟨rfl, rfl, lasting⟩

@[simp] theorem unread_ofText (text : Text) : (ofText text).unread = text := by
  induction text with
  | nil => rfl
  | cons c text ih => exact congrArg (c :: ·) ih

@[simp] theorem isLasting_ofText (text : Text) :
    (ofText text).isLasting = true := by
  induction text with
  | nil => rfl
  | cons c text ih => exact ih

end Feed

namespace LazySource

/-- All that is unread. -/
def text (source : LazySource) : Text :=
  source.queue ++ source.feed.unread

/-- The source with all that is unread in its queue. -/
def settled (source : LazySource) : LazySource :=
  { source with queue := source.text, feed := [] }

def Lasting (source : LazySource) : Prop :=
  source.feed.isLasting = true

theorem settled_eq_iff {source other : LazySource} :
    source.settled = other.settled ↔
      source.text = other.text ∧ source.file = other.file ∧
        source.line = other.line := by
  simp only [settled, LazySource.mk.injEq, true_and]

theorem take_lasting {source : LazySource} (lasting : source.Lasting) :
    source.take.1 = source.text.head? ∧
      source.take.2.text = source.text.tail ∧
      source.take.2.file = source.file ∧ source.take.2.line = source.line ∧
      source.take.2.Lasting := by
  unfold take text
  cases source.queue with
  | cons c queue => exact ⟨rfl, rfl, rfl, rfl, lasting⟩
  | nil =>
      obtain ⟨answer, left, still⟩ := Feed.ask_lasting lasting
      exact ⟨answer, left, rfl, rfl, still⟩

/-- Taking from a settled source leaves it settled. -/
theorem take_settled {source : LazySource} (lasting : source.Lasting) :
    source.settled.take = (source.take.1, source.take.2.settled) := by
  obtain ⟨answer, text, file, line, -⟩ := take_lasting lasting
  rw [answer, settled, settled, text, file, line, take]
  cases source.text with
  | nil => rfl
  | cons c rest => rfl

/-- Pulling moves characters into the queue: as many as asked for, or all. -/
theorem pull_lasting {source : LazySource} (lasting : source.Lasting)
    (count : Nat) :
    (source.pull count).2.settled = source.settled ∧
      (source.pull count).2.Lasting ∧
      ((source.pull count).1 = true →
        (source.pull count).2.queue.length = source.queue.length + count) ∧
      ((source.pull count).1 = false →
        (source.pull count).2.queue = source.text ∧
          source.text.length < source.queue.length + count) := by
  induction count generalizing source with
  | zero => exact ⟨rfl, lasting, fun _ => rfl, by simp [pull]⟩
  | succ count ih =>
      obtain ⟨answer, left, still⟩ := Feed.ask_lasting lasting
      unfold pull
      rcases asked : source.feed.ask with ⟨_ | c, later⟩
      · rw [asked] at answer left still
        have ended : source.feed.unread = [] :=
          List.head?_eq_none_iff.mp answer.symm
        have later_ended : later.unread = [] := by
          rw [left, ended, List.tail_nil]
        refine ⟨?_, still, by simp, fun _ => ⟨?_, ?_⟩⟩
        · simp [settled, text, ended, later_ended]
        · simp [text, ended]
        · simp [text, ended]
      · rw [asked] at answer left still
        let pulled : LazySource :=
          { source with feed := later, queue := source.queue ++ [c] }
        have unread : pulled.text = source.text := by
          obtain ⟨rest, first⟩ := List.head?_eq_some_iff.mp answer.symm
          rw [first, List.tail_cons] at left
          simp [pulled, text, first, left]
        have same : pulled.settled = source.settled := by
          simp only [settled, unread, pulled]
        obtain ⟨settled_eq, kept, full, short⟩ := @ih pulled still
        rw [same] at settled_eq
        rw [unread] at short
        simp only [pulled, List.length_append, List.length_singleton]
          at full short
        refine ⟨settled_eq, kept, fun enough => ?_, fun few => ?_⟩
        · rw [full enough]
          omega
        · obtain ⟨whole, fewer⟩ := short few
          exact ⟨whole, by omega⟩

theorem fill_lasting {source : LazySource} (lasting : source.Lasting)
    (count : Nat) :
    (source.fill count).2.settled = source.settled ∧
      (source.fill count).2.Lasting ∧
      ((source.fill count).1 = true →
        count ≤ (source.fill count).2.queue.length) ∧
      ((source.fill count).1 = false →
        (source.fill count).2.queue = source.text ∧
          source.text.length < count) := by
  obtain ⟨same, kept, full, short⟩ :=
    pull_lasting lasting (count - source.queue.length)
  refine ⟨same, kept, fun enough => ?_, fun few => ?_⟩
  · have := full enough
    unfold fill
    omega
  · obtain ⟨whole, fewer⟩ := short few
    refine ⟨whole, ?_⟩
    have queued : source.queue.length ≤ source.text.length := by simp [text]
    omega

private theorem toNat_lineAfter {line : UInt32} {c : Char} {count : Nat}
    (same : line.toNat = count)
    (fits : (if c == '\n' then count + 1 else count) < UInt32.size) :
    (lineAfter line c).toNat = if c == '\n' then count + 1 else count := by
  unfold lineAfter
  split
  · rename_i feed
    rw [if_pos feed] at fits
    rw [UInt32.toNat_add, same]
    exact Nat.mod_eq_of_lt fits
  · exact same

private theorem toNat_lineBefore (line : UInt32) (c : Char) :
    (lineBefore line c).toNat =
      if c == '\n' then line.toNat - 1 else line.toNat := by
  unfold lineBefore
  by_cases feed : (c == '\n') = true
  · by_cases first : line = 0
    · simp [feed, first]
    · have positive : 1 ≤ line := by
        rw [UInt32.le_iff_toNat_le]
        have nonzero : line.toNat ≠ 0 := fun zero =>
          first (UInt32.toNat_inj.mp zero)
        simpa using Nat.one_le_iff_ne_zero.mpr nonzero
      simp [feed, first, UInt32.toNat_sub_of_le _ _ positive]
  · simp [feed]

end LazySource

namespace Cursor

theorem skipSpace_advance {cursor : Cursor} (ready : cursor.Ready)
    (space : cursor.current.any isSpace = true) :
    cursor.advance.skipSpace = cursor.skipSpace := by
  cases current : cursor.current with
  | none => simp [current] at space
  | some c =>
      rw [current, Option.any_some] at space
      have pending : cursor.pending = c :: unread cursor.top cursor.below := by
        simp only [Cursor.pending, current]
      have rest : cursor.advance.pending = unread cursor.top cursor.below := by
        have dropped := pending_advanceBy ready 1
        rwa [pending, List.drop_one, List.tail_cons] at dropped
      rw [skipSpace_eq ready, skipSpace_eq (ready_advance cursor),
        rest, pending, List.takeWhile_cons_of_pos space,
        List.length_cons, advanceBy]

theorem skipSpace_stop {cursor : Cursor}
    (stop : cursor.current.any isSpace = false) :
    cursor.skipSpace = cursor := by
  unfold skipSpace
  cases current : cursor.current with
  | none => rfl
  | some c =>
      rw [current, Option.any_some] at stop
      simp only [pending, current]
      rw [List.takeWhile_cons_of_neg (by simp [stop])]
      rfl

end Cursor

namespace LazyCursor

/-- The current character, and then what each source has queued and what it has
left. -/
def pending (cursor : LazyCursor) : Text :=
  cursor.current.toList ++
    (cursor.top :: cursor.below).flatMap fun source =>
      source.queue ++ source.feed.unread

/-- The cursor that has looked at everything. -/
def settled (cursor : LazyCursor) : LazyCursor :=
  { cursor with
    top := cursor.top.settled
    below := cursor.below.map LazySource.settled }

/-- No feed goes on after its end, and no more is remembered than is shown. -/
structure Lasting (cursor : LazyCursor) : Prop where
  top : cursor.top.Lasting
  below : ∀ source ∈ cursor.below, source.Lasting
  recent : cursor.recent.length ≤ Cursor.contextLength

private theorem lasting_ofFeed {feed : Feed} (file : Option Text)
    (lasting : feed.isLasting = true) : (ofFeed feed file).Lasting :=
  ⟨lasting, by simp [ofFeed], by simp [ofFeed]⟩

private theorem draw_lasting {top : LazySource} {below : List LazySource}
    (lasting : top.Lasting) (others : ∀ source ∈ below, source.Lasting) :
    draw top.settled (below.map LazySource.settled) =
        ((draw top below).1, (draw top below).2.1.settled,
          (draw top below).2.2.map LazySource.settled) ∧
      (draw top below).2.1.Lasting ∧
      ∀ source ∈ (draw top below).2.2, source.Lasting := by
  fun_induction draw top below with
  | case1 top c rest below taken =>
      have settled := LazySource.take_settled lasting
      obtain ⟨-, -, -, -, still⟩ := LazySource.take_lasting lasting
      rw [taken] at settled still
      refine ⟨?_, still, others⟩
      rw [draw.eq_def, settled]
      rfl
  | case2 top rest taken =>
      have settled := LazySource.take_settled lasting
      obtain ⟨-, -, -, -, still⟩ := LazySource.take_lasting lasting
      rw [taken] at settled still
      refine ⟨?_, still, by simp⟩
      rw [draw.eq_def, settled]
      rfl
  | case3 top rest next below taken ih =>
      have settled := LazySource.take_settled lasting
      rw [taken] at settled
      rw [draw.eq_def, settled]
      exact ih (others next (by simp)) fun source member =>
        others source (by simp [member])

private theorem look_lasting {count : Nat} {top : LazySource}
    {below : List LazySource} (lasting : top.Lasting)
    (others : ∀ source ∈ below, source.Lasting) :
    (look count top below).1 =
        ((top :: below).flatMap LazySource.text)[count]? ∧
      (look count top below).2.1.settled = top.settled ∧
      (look count top below).2.2.map LazySource.settled =
        below.map LazySource.settled ∧
      (look count top below).2.1.Lasting ∧
      ∀ source ∈ (look count top below).2.2, source.Lasting := by
  fun_induction look count top below with
  | case1 count top filled below found =>
      obtain ⟨same, kept, full, -⟩ :=
        LazySource.fill_lasting lasting (count + 1)
      rw [found] at same kept full
      refine ⟨?_, same, rfl, kept, others⟩
      have within : count < filled.queue.length := full rfl
      have unread := (LazySource.settled_eq_iff.mp same).1
      rw [List.flatMap_cons, ← unread, LazySource.text, List.append_assoc,
        List.getElem?_append_left within]
  | case2 count top filled found =>
      obtain ⟨same, kept, -, short⟩ :=
        LazySource.fill_lasting lasting (count + 1)
      rw [found] at same kept short
      obtain ⟨-, fewer⟩ := short rfl
      refine ⟨?_, same, rfl, kept, others⟩
      refine (List.getElem?_eq_none ?_).symm
      simp only [List.flatMap_cons, List.flatMap_nil, List.append_nil]
      omega
  | case3 count top filled next below found c ahead lower looked ih =>
      obtain ⟨same, kept, -, short⟩ :=
        LazySource.fill_lasting lasting (count + 1)
      rw [found] at same kept short
      obtain ⟨whole, fewer⟩ := short rfl
      obtain ⟨answer, next_eq, below_eq, next_kept, below_kept⟩ :=
        ih (others next (by simp)) fun source member =>
          others source (by simp [member])
      rw [looked] at answer next_eq below_eq next_kept below_kept
      refine ⟨?_, same, ?_, kept, ?_⟩
      · rw [answer, whole, @List.flatMap_cons _ _ top,
          List.getElem?_append_right (by omega)]
      · simp [next_eq, below_eq]
      · simpa [next_kept] using below_kept

theorem remember_recent {recent : Text}
    (short : recent.length ≤ Cursor.contextLength) (current : Option Char) :
    (remember recent current).reverse = Cursor.remember recent.reverse current ∧
      (remember recent current).length ≤ Cursor.contextLength := by
  cases current with
  | none => exact ⟨rfl, short⟩
  | some c =>
      simp only [remember, Cursor.remember]
      by_cases full : recent.length = Cursor.contextLength
      · obtain ⟨oldest, later, rfl⟩ : ∃ oldest later,
            recent = oldest :: later :=
          List.exists_cons_of_length_pos (by rw [full]; decide)
        have enough : Cursor.contextLength = later.length + 1 := full.symm
        rw [if_pos (by simp [full]), enough]
        refine ⟨?_, by simp⟩
        simp
      · rw [if_neg (by simpa using full)]
        refine ⟨?_, by rw [List.length_append, List.length_singleton]; omega⟩
        rw [List.reverse_append, List.take_of_length_le]
        · rfl
        · rw [List.length_cons, List.length_reverse]
          omega

/-- The characters that are still to come behind the current one. -/
def unread (cursor : LazyCursor) : Text :=
  (cursor.top :: cursor.below).flatMap LazySource.text

theorem pending_eq (cursor : LazyCursor) :
    cursor.pending = cursor.current.toList ++ cursor.unread :=
  rfl

/-- Two cursors differ at most in how far they have looked ahead. -/
structure Alike (cursor other : LazyCursor) : Prop where
  lasting : cursor.Lasting
  also : other.Lasting
  settled : cursor.settled = other.settled

variable {cursor other : LazyCursor}

theorem settled_inj : cursor.settled = other.settled ↔
    cursor.current = other.current ∧ cursor.top.settled = other.top.settled ∧
      cursor.below.map LazySource.settled = other.below.map LazySource.settled ∧
      cursor.index = other.index ∧ cursor.recent = other.recent := by
  simp only [settled, LazyCursor.mk.injEq]

theorem Lasting.advance (lasting : cursor.Lasting) :
    cursor.advance.Lasting ∧
      cursor.advance.settled = cursor.settled.advance := by
  obtain ⟨drawn, top, below⟩ := draw_lasting lasting.top lasting.below
  have short := (remember_recent lasting.recent cursor.current).2
  refine ⟨⟨top, below, short⟩, ?_⟩
  change _ = LazyCursor.advance ⟨cursor.current, _, _, _, _⟩
  unfold LazyCursor.advance
  dsimp only
  rw [drawn]
  rfl

theorem Lasting.putBack (lasting : cursor.Lasting) :
    cursor.putBack.Lasting ∧
      cursor.putBack.settled = cursor.settled.putBack := by
  unfold LazyCursor.putBack
  cases current : cursor.current with
  | none => simp [current, LazyCursor.settled, lasting]
  | some c =>
      refine ⟨⟨lasting.top, lasting.below, lasting.recent⟩, ?_⟩
      simp [LazyCursor.settled, current, LazySource.settled, LazySource.text]

theorem Lasting.peekNth (lasting : cursor.Lasting) (count : Nat) :
    (cursor.peekNth count).1 = cursor.unread[count]? ∧
      (cursor.peekNth count).2.Alike cursor := by
  obtain ⟨answer, top, below, top_kept, below_kept⟩ :=
    @look_lasting count _ _ lasting.top lasting.below
  refine ⟨answer, ⟨top_kept, below_kept, lasting.recent⟩, lasting, ?_⟩
  simp [LazyCursor.peekNth, LazyCursor.settled, top, below]

/-- The cursor with a feed in front of its current character. -/
def spliced (cursor : LazyCursor) (feed : Feed) (file : Option Text)
    (line : UInt32) : LazyCursor :=
  { cursor.putBack with
    top := { feed, file, line }
    below := cursor.putBack.top :: cursor.putBack.below }

theorem insertFeed_eq (cursor : LazyCursor) (feed : Feed) (file : Option Text)
    (line : UInt32) :
    insertFeed feed file line cursor =
      if Cursor.maxSources ≤ cursor.depth then
        .error (.endless .expansion) cursor
      else .ok () (cursor.spliced feed file line).advance :=
  rfl

theorem Lasting.spliced (lasting : cursor.Lasting) {feed : Feed}
    (lastingFeed : feed.isLasting = true) (file : Option Text) (line : UInt32) :
    (cursor.spliced feed file line).Lasting := by
  have back := lasting.putBack.1
  refine ⟨lastingFeed, ?_, back.recent⟩
  simpa [LazyCursor.spliced, back.top] using back.below

namespace Alike

theorem trans {third : LazyCursor} (first : cursor.Alike other)
    (second : other.Alike third) : cursor.Alike third :=
  ⟨first.lasting, second.also, first.settled.trans second.settled⟩

theorem current (alike : cursor.Alike other) : cursor.current = other.current :=
  (settled_inj.mp alike.settled).1

theorem index (alike : cursor.Alike other) : cursor.index = other.index :=
  (settled_inj.mp alike.settled).2.2.2.1

theorem recent (alike : cursor.Alike other) : cursor.recent = other.recent :=
  (settled_inj.mp alike.settled).2.2.2.2

theorem file (alike : cursor.Alike other) : cursor.file = other.file :=
  (LazySource.settled_eq_iff.mp (settled_inj.mp alike.settled).2.1).2.1

theorem line (alike : cursor.Alike other) : cursor.line = other.line :=
  (LazySource.settled_eq_iff.mp (settled_inj.mp alike.settled).2.1).2.2

theorem depth (alike : cursor.Alike other) : cursor.depth = other.depth := by
  have lengths := congrArg List.length (settled_inj.mp alike.settled).2.2.1
  rw [List.length_map, List.length_map] at lengths
  rw [LazyCursor.depth, lengths, LazyCursor.depth]

theorem unread (alike : cursor.Alike other) : cursor.unread = other.unread := by
  have queues (sources : List LazySource) :
      sources.flatMap LazySource.text =
        (sources.map LazySource.settled).flatMap LazySource.queue := by
    rw [List.flatMap_map]
    rfl
  obtain ⟨-, top, below, -, -⟩ := settled_inj.mp alike.settled
  rw [LazyCursor.unread, LazyCursor.unread, queues, queues, List.map_cons,
    List.map_cons, top, below]

theorem pending (alike : cursor.Alike other) :
    cursor.pending = other.pending := by
  rw [pending_eq, pending_eq, alike.current, alike.unread]

theorem advance (alike : cursor.Alike other) :
    cursor.advance.Alike other.advance := by
  obtain ⟨first, settled⟩ := alike.lasting.advance
  obtain ⟨second, also⟩ := alike.also.advance
  exact ⟨first, second, by rw [settled, also, alike.settled]⟩

theorem spliced (alike : cursor.Alike other) {feed : Feed}
    (lasting : feed.isLasting = true) (file : Option Text) (line : UInt32) :
    (cursor.spliced feed file line).Alike (other.spliced feed file line) := by
  refine ⟨alike.lasting.spliced lasting file line,
    alike.also.spliced lasting file line, ?_⟩
  have back : cursor.putBack.settled = other.putBack.settled := by
    rw [alike.lasting.putBack.2, alike.also.putBack.2, alike.settled]
  obtain ⟨current, top, below, index, recent⟩ := settled_inj.mp back
  refine settled_inj.mpr ⟨current, rfl, ?_, index, recent⟩
  simp only [LazyCursor.spliced, List.map_cons, top, below]

theorem skipSpace (alike : cursor.Alike other) :
    cursor.skipSpace.1 = other.skipSpace.1 ∧
      cursor.skipSpace.2.Alike other.skipSpace.2 := by
  fun_induction LazyCursor.skipSpace cursor generalizing other with
  | case1 cursor space ih =>
      rw [alike.current] at space
      rw [LazyCursor.skipSpace.eq_def other, if_pos space]
      exact ⟨rfl, (ih alike.advance).2⟩
  | case2 cursor stop =>
      rw [alike.current] at stop
      rw [LazyCursor.skipSpace.eq_def other, if_neg stop]
      exact ⟨rfl, alike⟩

end Alike

theorem Lasting.lookAhead (lasting : cursor.Lasting) (first count : Nat) :
    (cursor.lookAhead first count).1 = (cursor.unread.drop first).take count ∧
      (cursor.lookAhead first count).2.Alike cursor := by
  induction count generalizing cursor first with
  | zero =>
      exact ⟨by simp [LazyCursor.lookAhead], lasting, lasting, rfl⟩
  | succ count ih =>
      obtain ⟨answer, alike⟩ := lasting.peekNth first
      unfold LazyCursor.lookAhead
      rcases peeked : cursor.peekNth first with ⟨_ | c, ahead⟩
      · rw [peeked] at answer alike
        have short := List.getElem?_eq_none_iff.mp answer.symm
        exact ⟨by simp [List.drop_eq_nil_of_le short], alike⟩
      · rw [peeked] at answer alike
        obtain ⟨within, found⟩ := List.getElem?_eq_some_iff.mp answer.symm
        obtain ⟨text, still⟩ := ih alike.lasting (first + 1)
        refine ⟨?_, still.trans alike⟩
        dsimp only at text ⊢
        rw [text, alike.unread, List.drop_eq_getElem_cons within, found,
          List.take_succ_cons]

theorem Lasting.location (lasting : cursor.Lasting) :
    cursor.location.1 =
        { file := cursor.file
          line := cursor.line.toNat
          offset := cursor.index
          before := cursor.recent
          after := if cursor.current.isSome then
            cursor.pending.take Cursor.contextLength else [] } ∧
      cursor.location.2.Alike cursor := by
  obtain ⟨text, alike⟩ := lasting.lookAhead 0 (Cursor.contextLength - 1)
  unfold LazyCursor.location
  rw [pending_eq]
  cases current : cursor.current with
  | none => exact ⟨rfl, lasting, lasting, rfl⟩
  | some c =>
      dsimp only
      rw [text]
      exact ⟨rfl, alike⟩

theorem Alike.location (alike : cursor.Alike other) :
    cursor.location.1 = other.location.1 ∧
      cursor.location.2.Alike other.location.2 := by
  obtain ⟨first, left⟩ := alike.lasting.location
  obtain ⟨second, right⟩ := alike.also.location
  refine ⟨?_, left.lasting, right.lasting, ?_⟩
  · rw [first, second, alike.file, alike.line, alike.index, alike.recent,
      alike.current, alike.pending]
  · rw [left.settled, right.settled, alike.settled]

end LazyCursor

/-- The line behind the next character. -/
def Source.nextLine (source : Source) : Nat :=
  if source.text.head? = some '\n' then source.line + 1 else source.line

/-- A lazy source stands for a source.  Its line number is right as long as
`bound` fits into 32 bits. -/
structure LazySource.Stands (source : LazySource) (plain : Source)
    (bound : Nat) : Prop where
  text : source.text = plain.text
  file : source.file = plain.file
  line : bound < UInt32.size → source.line.toNat = plain.line

/-- A source from which nothing is drawn yet stands for another one, if the line
behind its next character fits. -/
def LazySource.Waits (source : LazySource) (plain : Source) : Prop :=
  source.Stands plain plain.nextLine

namespace LazySource.Stands

variable {source : LazySource} {plain : Source} {bound : Nat}

theorem mono {wider : Nat} (stands : source.Stands plain bound)
    (within : bound ≤ wider) : source.Stands plain wider :=
  { stands with line := fun fits =>
                  stands.line (Nat.lt_of_le_of_lt within fits) }

theorem next (stands : source.Stands plain plain.line) :
    source.Waits plain := by
  apply stands.mono
  unfold Source.nextLine
  split
  · exact Nat.le_succ _
  · exact Nat.le_refl _

theorem of_settled {other : LazySource} (stands : source.Stands plain bound)
    (same : other.settled = source.settled) : other.Stands plain bound := by
  obtain ⟨text, file, line⟩ := LazySource.settled_eq_iff.mp same
  exact ⟨text.trans stands.text, file.trans stands.file, line ▸ stands.line⟩

end LazySource.Stands

namespace LazyCursor

/-- What is drawn from lazy sources is drawn from the sources that they stand
for.  The line number of a source that waits is right if it still is behind its
next character, so it is right when that has been drawn. -/
theorem draw_stands {top : LazySource} {below : List LazySource}
    {plain : Source} {others : List Source} (lasting : top.Lasting)
    (lastingBelow : ∀ source ∈ below, source.Lasting)
    (stands : top.Waits plain)
    (waiting : List.Forall₂ LazySource.Waits below others) :
    let drawn := Cursor.draw plain others
    (draw top below).1 = drawn.1 ∧
      (draw top below).2.1.Stands drawn.2.1 drawn.2.1.line ∧
      List.Forall₂ LazySource.Waits (draw top below).2.2 drawn.2.2 := by
  fun_induction draw top below generalizing plain others with
  | case1 top c rest below taken =>
      obtain ⟨answer, text, file, line, -⟩ := LazySource.take_lasting lasting
      rw [taken, stands.text] at answer text
      rw [taken] at file line
      obtain ⟨tail, found⟩ := List.head?_eq_some_iff.mp answer.symm
      have next : plain.nextLine =
          if c == '\n' then plain.line + 1 else plain.line := by
        simp [Source.nextLine, found]
      rw [Cursor.draw_cons found]
      refine ⟨rfl, ⟨?_, file.trans stands.file, fun fits => ?_⟩, waiting⟩
      · rwa [found] at text
      · have right := stands.line (next ▸ fits)
        rw [← line] at right
        exact LazySource.toNat_lineAfter right fits
  | case2 top rest taken =>
      obtain ⟨answer, text, file, line, -⟩ := LazySource.take_lasting lasting
      rw [taken, stands.text] at answer text
      rw [taken] at file line
      have ended : plain.text = [] := List.head?_eq_none_iff.mp answer.symm
      cases waiting
      rw [Cursor.draw_last ended]
      have next : plain.nextLine = plain.line := by
        simp [Source.nextLine, ended]
      refine ⟨rfl, ⟨?_, file.trans stands.file, fun fits => ?_⟩, .nil⟩
      · rwa [ended] at text ⊢
      · exact (congrArg UInt32.toNat line).trans (stands.line (next ▸ fits))
  | case3 top rest next below taken ih =>
      obtain ⟨answer, -, -, -, -⟩ := LazySource.take_lasting lasting
      rw [taken, stands.text] at answer
      have ended : plain.text = [] := List.head?_eq_none_iff.mp answer.symm
      cases waiting with
      | cons first later =>
          rw [Cursor.draw_next ended]
          exact ih (lastingBelow next (by simp))
            (fun source member => lastingBelow source (by simp [member])) first
            later

/-- A lazy cursor stands for a cursor.  Its line number is right as long as it
fits into 32 bits. -/
structure Stands (cursor : LazyCursor) (plain : Cursor) : Prop where
  lasting : cursor.Lasting
  current : cursor.current = plain.current
  top : cursor.top.Stands plain.top plain.top.line
  below : List.Forall₂ LazySource.Waits cursor.below plain.below
  index : cursor.index = plain.index
  recent : cursor.recent.reverse = plain.recent

variable {cursor other : LazyCursor} {plain : Cursor}

/-- The cursor that a lazy cursor stands for, by its own line numbers. -/
def view (cursor : LazyCursor) : Cursor where
  current := cursor.current
  top := { text := cursor.top.text, file := cursor.top.file
           line := cursor.top.line.toNat }
  below := cursor.below.map fun source =>
    { text := source.text, file := source.file, line := source.line.toNat }
  index := cursor.index
  recent := cursor.recent.reverse

theorem Lasting.stands_view (lasting : cursor.Lasting) :
    cursor.Stands cursor.view where
  lasting := lasting
  current := rfl
  top := ⟨rfl, rfl, fun _ => rfl⟩
  below := by
    rw [view, List.forall₂_map_right_iff, List.forall₂_same]
    exact fun source _ => ⟨rfl, rfl, fun _ => rfl⟩
  index := rfl
  recent := rfl

theorem stands_ofFeed {feed : Feed} (file : Option Text)
    (lasting : feed.isLasting = true) :
    (ofFeed feed file).Stands (.ofText feed.unread file) where
  lasting := lasting_ofFeed file lasting
  current := rfl
  top := ⟨rfl, rfl, fun _ => rfl⟩
  below := .nil
  index := rfl
  recent := rfl

namespace Stands

private theorem waiting_of_settled {sources others : List LazySource}
    {plains : List Source}
    (stand : List.Forall₂ LazySource.Waits sources plains)
    (same : others.map LazySource.settled = sources.map LazySource.settled) :
    List.Forall₂ LazySource.Waits others plains := by
  induction stand generalizing others with
  | nil =>
      rw [List.map_eq_nil_iff.mp same]
      exact .nil
  | cons first _ ih =>
      obtain ⟨source, later, rfl, settled, rest⟩ := List.map_eq_cons_iff.mp same
      exact .cons (first.of_settled settled) (ih rest)

private theorem texts_of_waiting {sources : List LazySource}
    {plains : List Source}
    (stand : List.Forall₂ LazySource.Waits sources plains) :
    sources.map LazySource.text = plains.map Source.text := by
  induction stand with
  | nil => rfl
  | cons first _ ih => rw [List.map_cons, List.map_cons, first.text, ih]

theorem of_alike (stands : cursor.Stands plain) (alike : other.Alike cursor) :
    other.Stands plain := by
  obtain ⟨current, top, below, index, recent⟩ := settled_inj.mp alike.settled
  refine ⟨alike.lasting, current.trans stands.current,
    stands.top.of_settled top, ?_, index.trans stands.index,
    recent ▸ stands.recent⟩
  exact waiting_of_settled stands.below below

theorem unread (stands : cursor.Stands plain) :
    cursor.unread = Cursor.unread plain.top plain.below := by
  rw [LazyCursor.unread, List.flatMap_def, List.map_cons,
    texts_of_waiting stands.below, stands.top.text, Cursor.unread_eq_flatten]

theorem pending (stands : cursor.Stands plain) :
    cursor.pending = plain.pending := by
  rw [pending_eq, stands.unread, stands.current, Cursor.pending]
  cases plain.current with
  | none => rfl
  | some c => rfl

theorem depth (stands : cursor.Stands plain) :
    cursor.depth = plain.below.length + 1 :=
  congrArg (· + 1) stands.below.length_eq

theorem advance (stands : cursor.Stands plain) :
    cursor.advance.Stands plain.advance := by
  obtain ⟨drawn, top, below⟩ := draw_stands stands.lasting.top
    stands.lasting.below stands.top.next stands.below
  refine ⟨stands.lasting.advance.1, drawn, top, below, ?_, ?_⟩
  · simp only [LazyCursor.advance, Cursor.advance, drawn, stands.index]
  · have remembered :=
      (remember_recent stands.lasting.recent cursor.current).1
    rw [stands.recent, stands.current] at remembered
    simpa only [LazyCursor.advance, Cursor.advance, stands.current]
      using remembered

theorem peekNth (stands : cursor.Stands plain) (count : Nat) :
    (cursor.peekNth count).1 = plain.peek count ∧
      (cursor.peekNth count).2.Stands plain := by
  obtain ⟨answer, alike⟩ := stands.lasting.peekNth count
  rw [stands.unread] at answer
  exact ⟨answer, stands.of_alike alike⟩

/-- A character that is given back goes to a source that waits. -/
theorem putBack (stands : cursor.Stands plain) :
    cursor.putBack.current = plain.putBack.current ∧
      cursor.putBack.top.Waits plain.putBack.top ∧
      List.Forall₂ LazySource.Waits cursor.putBack.below plain.putBack.below ∧
      cursor.putBack.index = plain.putBack.index ∧
      cursor.putBack.recent.reverse = plain.putBack.recent := by
  unfold LazyCursor.putBack Cursor.putBack
  rw [stands.current]
  cases plain.current with
  | none =>
      exact ⟨stands.current, stands.top.next, stands.below, stands.index,
        stands.recent⟩
  | some c =>
      refine ⟨rfl, ⟨congrArg (c :: ·) stands.top.text, stands.top.file, ?_⟩,
        stands.below, congrArg (· - 1) stands.index, stands.recent⟩
      intro fits
      have standing : plain.top.line < UInt32.size := by
        refine Nat.lt_of_le_of_lt ?_ fits
        simp only [Source.nextLine, List.head?_cons, Option.some.injEq]
        by_cases feed : c = '\n'
        · simp only [feed, if_true, beq_self_eq_true]
          omega
        · simp [feed]
      have line := stands.top.line standing
      change (LazySource.lineBefore cursor.top.line c).toNat = _
      rw [LazySource.toNat_lineBefore, line]

/-- A feed is spliced in as its text is, or refused as its text is. -/
theorem insertFeed (stands : cursor.Stands plain) {feed : Feed}
    (lasting : feed.isLasting = true) (file : Option Text) (line : UInt32) :
    (plain.insert ⟨feed.unread, file, line.toNat⟩ =
          .error (.endless .expansion) ∧
        LazyCursor.insertFeed feed file line cursor =
          .error (.endless .expansion) cursor) ∨
      ∃ after moved,
        LazyCursor.insertFeed feed file line cursor = .ok () after ∧
        plain.insert ⟨feed.unread, file, line.toNat⟩ = .ok moved ∧
        after.Stands moved := by
  rw [insertFeed_eq, Cursor.insert, stands.depth]
  by_cases full : Cursor.maxSources ≤ plain.below.length + 1
  · simp [full]
  · right
    rw [if_neg full, if_neg full]
    obtain ⟨current, top, below, index, recent⟩ := stands.putBack
    refine ⟨_, _, rfl, rfl, Stands.advance ?_⟩
    exact ⟨stands.lasting.spliced lasting file line, current,
      ⟨rfl, rfl, fun _ => rfl⟩, .cons top below, index, recent⟩

theorem skipSpace (stands : cursor.Stands plain) (ready : plain.Ready) :
    cursor.skipSpace.1 = plain.current.any isSpace ∧
      cursor.skipSpace.2.Stands plain.skipSpace := by
  fun_induction LazyCursor.skipSpace cursor generalizing plain with
  | case1 cursor space ih =>
      rw [stands.current] at space
      obtain ⟨-, moved⟩ := ih stands.advance (Cursor.ready_advance plain)
      rw [Cursor.skipSpace_advance ready space] at moved
      exact ⟨space.symm, moved⟩
  | case2 cursor stop =>
      rw [stands.current, Bool.not_eq_true] at stop
      rw [Cursor.skipSpace_stop stop]
      exact ⟨stop.symm, stands⟩

end Stands

end LazyCursor

/-- Two positions are the same, but for a line number that does not fit into 32
bits. -/
structure Location.Agrees (location plain : Location) : Prop where
  file : location.file = plain.file
  line : plain.line < UInt32.size → location.line = plain.line
  offset : location.offset = plain.offset
  before : location.before = plain.before
  after : location.after = plain.after

theorem LazyCursor.Stands.location {cursor : LazyCursor} {plain : Cursor}
    (stands : cursor.Stands plain) :
    cursor.location.1.Agrees plain.location ∧
      cursor.location.2.Stands plain := by
  obtain ⟨shown, alike⟩ := stands.lasting.location
  refine ⟨?_, stands.of_alike alike⟩
  rw [shown, stands.current, stands.pending]
  refine ⟨stands.top.file, stands.top.line, stands.index, ?_, ?_⟩
  · exact List.reverse_eq_iff.mp stands.recent
  · unfold Cursor.location
    cases plain.current with
    | none => rfl
    | some c => rfl

end Stylesheet
