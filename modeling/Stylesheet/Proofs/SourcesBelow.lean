import Stylesheet.Proofs.Alike
import Stylesheet.Proofs.Complete
import Stylesheet.Proofs.Consumption
import Stylesheet.Proofs.Reading

/-!
# Sources below

The text of a file can be read alone, or on top of other sources.  A statement
that succeeds in the first way succeeds in the second one too, with the same
effect, as long as it ends in the text: what is below cannot be seen from there.
So a file is read to its end in the same way, and reading goes on in the source
below it.
-/

namespace Stylesheet

namespace Cursor

/-- The text of sources on top of each other. -/
def textOf (sources : List Source) : Text :=
  (sources.map Source.text).flatten

/-- The cursor has come to these sources and taken their first character. -/
def Draws (sources : List Source) (cursor : Cursor) : Prop :=
  ∃ top below, sources = top :: below ∧
    (cursor.current, cursor.top, cursor.below) = draw top below

namespace Draws

variable {sources : List Source} {cursor : Cursor}

theorem ready (draws : cursor.Draws sources) : cursor.Ready := by
  obtain ⟨top, below, -, drawn⟩ := draws
  have ended := draw_ready top below
  rw [← drawn] at ended
  exact ended

theorem pending (draws : cursor.Draws sources) :
    cursor.pending = textOf sources := by
  obtain ⟨top, below, rfl, drawn⟩ := draws
  have shown := draw_layers top below
  rw [← drawn] at shown
  have flat : cursor.layers.flatten =
      (skip 0 (top.text :: below.map Source.text)).flatten :=
    congrArg List.flatten shown
  rw [flatten_layers, flatten_skip, List.drop_zero] at flat
  exact flat

end Draws

/-- `other` reads what `cursor` reads, on top of the sources `below`, and has
come to them if `cursor` is at its end. -/
inductive Trails (below : List Source) : Cursor → Cursor → Prop where
  | within {cursor other : Cursor} {c : Char} (more : below ≠ [])
      (current : cursor.current = some c) (shown : other.current = some c)
      (top : other.top = cursor.top) (alone : cursor.below = [])
        (under : other.below = below) :
      Trails below cursor other
  | beyond {cursor other : Cursor} (ready : cursor.Ready)
      (ended : cursor.current = none)
      (draws : other.Draws below) : Trails below cursor other

namespace Trails

variable {below : List Source} {cursor other : Cursor}

theorem ready (trails : Trails below cursor other) : cursor.Ready := by
  cases trails with
  | within _ current =>
      exact fun ended => absurd (current.symm.trans ended) (by simp)
  | beyond ready => exact ready

theorem shown (trails : Trails below cursor other) : other.Ready := by
  cases trails with
  | within _ _ shown =>
      exact fun ended => absurd (shown.symm.trans ended) (by simp)
  | beyond _ _ draws => exact draws.ready

theorem pending (trails : Trails below cursor other) :
    other.pending = cursor.pending ++ textOf below := by
  cases trails with
  | within _ current shown top alone under =>
      simp [Cursor.pending, current, shown, top, alone, under,
        unread_eq_flatten, textOf]
  | beyond ready ended draws =>
      obtain ⟨text, alone⟩ := ready ended
      simp [Cursor.pending, ended, text, alone, unread, ← draws.pending]

theorem current (trails : Trails below cursor other)
    (covered : cursor.pending ≠ [] ∨ textOf below = []) :
    other.current = cursor.current := by
  rw [current_eq_head? trails.shown, current_eq_head? trails.ready,
    trails.pending]
  rcases covered with more | nothing
  · obtain ⟨c, rest, same⟩ := List.exists_cons_of_ne_nil more
    rw [same]
    rfl
  · rw [nothing, List.append_nil]

theorem top (trails : Trails below cursor other) (more : cursor.pending ≠ []) :
    other.top = cursor.top := by
  cases trails with
  | within _ _ _ top => exact top
  | beyond ready ended =>
      obtain ⟨text, alone⟩ := ready ended
      exact absurd (by simp [Cursor.pending, ended, text, alone, unread]) more

theorem advance (trails : Trails below cursor other)
    (more : cursor.pending ≠ []) :
    Trails below cursor.advance other.advance := by
  cases trails with
  | within nonempty current shown top alone under =>
      cases text : cursor.top.text with
      | nil =>
          obtain ⟨next, lower, rfl⟩ := List.exists_cons_of_ne_nil nonempty
          refine .beyond (ready_advance cursor) ?_ ⟨next, lower, rfl, ?_⟩
          · simp [Cursor.advance, alone, draw_last text]
          · simp [Cursor.advance, under, top, draw_next text]
      | cons c rest =>
          refine @Trails.within below _ _ c nonempty ?_ ?_ ?_ ?_ ?_
          all_goals simp [Cursor.advance, alone, under, top, draw_cons text]
  | beyond ready ended =>
      obtain ⟨text, alone⟩ := ready ended
      exact absurd (by simp [Cursor.pending, ended, text, alone, unread]) more

theorem advanceBy (trails : Trails below cursor other) {count : Nat}
    (within : count ≤ cursor.pending.length) :
    Trails below (cursor.advanceBy count) (other.advanceBy count) := by
  induction count generalizing cursor other with
  | zero => exact trails
  | succ count ih =>
      have more : cursor.pending ≠ [] := List.length_pos_iff.mp (by omega)
      refine ih (trails.advance more) ?_
      have moved := pending_advanceBy trails.ready 1
      rw [Cursor.advanceBy, Cursor.advanceBy] at moved
      rw [moved, List.length_drop]
      omega

end Trails

end Cursor

open Cursor

/-- States that differ only in the sources below, the dependencies and the
log. -/
structure State.Follows (below : List Source) (state other : State) : Prop where
  scopes : state.scopes = other.scopes
  sheet : state.sheet = other.sheet
  mixins : state.mixins = other.mixins
  blocks : state.blocks = other.blocks
  cursor : Trails below state.cursor other.cursor

/-- Nothing of what is below can be seen: there is text left, or nothing below
it. -/
def State.Covers (below : List Source) (state : State) : Prop :=
  state.cursor.pending ≠ [] ∨ textOf below = []

namespace State.Follows

variable {below : List Source} {state other : State} {text rest : Text}

theorem sharesSheet (below : List Source) :
    SharesSheet (State.Follows below) where
  scopes follows := follows.scopes
  resolved follows _ _ _ := { follows with scopes := rfl }
  sheet follows := follows.sheet
  printed follows _ := { follows with sheet := rfl }

theorem sharesScopes (below : List Source) :
    SharesScopes (State.Follows below) :=
  (sharesSheet below).toSharesScopes

theorem here (follows : State.Follows below state other) :
    state.At state.cursor.pending :=
  ⟨follows.cursor.ready, rfl⟩

theorem there (follows : State.Follows below state other)
    (here : state.At text) :
    other.At (text ++ textOf below) :=
  ⟨follows.cursor.shown, by rw [follows.cursor.pending, here.pending]⟩

theorem pass (follows : State.Follows below state other)
    (here : state.At (text ++ rest)) :
    State.Follows below (state.pass text.length) (other.pass text.length) :=
  { follows with
    cursor :=
      follows.cursor.advanceBy
        (by rw [here.pending, List.length_append]; omega) }

end State.Follows

/-- What the first action does on its own the second one does on top of the
sources `below`, if there is text left after it. -/
structure Carries {α : Type} (below : List Source)
    (first second : Compile α) : Prop where
  takes : Takes (fun _ _ _ => True) first
  carries : ∀ {state other value final}, State.Follows below state other →
    first state = .ok value final → final.Covers below →
    ∃ last, second other = .ok value last ∧ State.Follows below final last

/-- What the first action does on its own the second one does on top of the
sources `below`, if there is text left before it. -/
def Finishes {α : Type} (below : List Source)
    (first second : Compile α) : Prop :=
  ∀ state other value final, State.Follows below state other →
    first state = .ok value final → state.Covers below →
    ∃ last, second other = .ok value last ∧ State.Follows below final last

/-- Only if there is text left can the action succeed. -/
def Needs {α : Type} (action : Compile α) : Prop :=
  Takes (fun taken _ _ => taken ≠ []) action

theorem Needs.more {α : Type} {action : Compile α} (needs : Needs action)
    {state final : State} {value : α} (ready : state.cursor.Ready)
    (succeeded : action state = .ok value final) :
    state.cursor.pending ≠ [] := by
  obtain ⟨taken, rest, passed, some⟩ := needs state value final ready succeeded
  rw [passed.pending]
  simp [some]

/-- What covers the sources below afterwards covered them before. -/
theorem Takes.covers {α : Type} {effect : Text → α → Text → Prop}
    {action : Compile α} (takes : Takes effect action) {below : List Source}
    {state final : State} {value : α} (ready : state.cursor.Ready)
    (succeeded : action state = .ok value final) (covers : final.Covers below) :
    state.Covers below := by
  obtain ⟨taken, rest, passed, -⟩ := takes state value final ready succeeded
  rcases covers with more | nothing
  · refine .inl ?_
    rw [passed.rest_eq ready] at more
    rw [passed.pending]
    simp [more]
  · exact .inr nothing

namespace Carries

variable {α β : Type} {below : List Source} {first second : Compile α}
  {next further : α → Compile β}

theorem bind (leading : Carries below first second)
    (following : ∀ value, Carries below (next value) (further value)) :
    Carries below (first >>= next) (second >>= further) where
  takes := leading.takes.bind (fun value => (following value).takes)
    fun _ _ => trivial
  carries {state other result final} follows succeeded covers := by
    obtain ⟨value, middle, done, succeeded⟩ := bind_ok succeeded
    obtain ⟨taken, rest, passed, -⟩ :=
      leading.takes state value middle follows.cursor.ready done
    have ready := passed.ready follows.cursor.ready
    obtain ⟨between, done, follows⟩ := leading.carries follows done
      ((following value).takes.covers ready succeeded covers)
    obtain ⟨last, ended, follows⟩ :=
      (following value).carries follows succeeded covers
    exact ⟨last, by rw [bind_apply, done]; exact ended, follows⟩

/-- What follows has text left because it needs some. -/
theorem finishes (leading : Carries below first second)
    (following : ∀ value, Finishes below (next value) (further value))
    (needs : ∀ value, Needs (next value)) :
    Finishes below (first >>= next) (second >>= further) := by
  intro state other result final follows succeeded _
  obtain ⟨value, middle, done, succeeded⟩ := bind_ok succeeded
  obtain ⟨taken, rest, passed, -⟩ :=
    leading.takes state value middle follows.cursor.ready done
  have ready := passed.ready follows.cursor.ready
  have covers : middle.Covers below := .inl ((needs value).more ready succeeded)
  obtain ⟨between, done, follows⟩ := leading.carries follows done covers
  obtain ⟨last, ended, follows⟩ :=
    following value _ _ _ _ follows succeeded covers
  exact ⟨last, by rw [bind_apply, done]; exact ended, follows⟩

theorem pure (value : α) :
    Carries below (Pure.pure value) (Pure.pure value) where
  takes := .pure fun _ => trivial
  carries {state other result final} follows succeeded _ := by
    obtain ⟨rfl, rfl⟩ : value = result ∧ state = final := by
      simpa using succeeded
    exact ⟨other, rfl, follows⟩

theorem guarded {condition : Prop} [Decidable condition] {fault : FormFault}
    {next further : PUnit → Compile α}
    (following : Carries below (next ⟨⟩) (further ⟨⟩)) :
    Carries below (if condition then Compile.form fault >>= next else next ⟨⟩)
      (if condition then Compile.form fault >>= further else further ⟨⟩) := by
  split
  · exact
      ⟨.throw _, fun _ succeeded _ => absurd succeeded (by simp [Compile.form])⟩
  · exact following

end Carries

namespace Finishes

variable {α β : Type} {below : List Source} {first second : Compile α}
  {next further : α → Compile β}

theorem carries (finishes : Finishes below first second)
    {effect : Text → α → Text → Prop} (takes : Takes effect first) :
    Carries below first second where
  takes := takes.mono fun _ => trivial
  carries follows succeeded covers :=
    finishes _ _ _ _ follows succeeded
      (takes.covers follows.cursor.ready succeeded covers)

theorem getThen {next further : State → Compile α}
    (following : ∀ seen shown, State.Follows below seen shown →
      seen.Covers below →
      Finishes below (next seen) (further shown)) :
    Finishes below (get >>= next) (get >>= further) := by
  intro state other value final follows succeeded covers
  exact following state other follows covers state other value final follows
    succeeded covers

/-- After work that gives the same on both and leaves the cursor where it is. -/
theorem still (steady : Parallel (State.Follows below) Eq first second)
    (stays : Takes (fun taken _ _ => taken = []) first)
    (following : ∀ value, Finishes below (next value) (further value)) :
    Finishes below (first >>= next) (second >>= further) := by
  intro state other result final follows succeeded covers
  obtain ⟨value, middle, done, succeeded⟩ := bind_ok succeeded
  obtain ⟨taken, rest, passed, nothing⟩ :=
    stays state value middle follows.cursor.ready done
  have paired := steady state other follows
  rw [done] at paired
  obtain ⟨shown, between, done, rfl, follows⟩ := paired.ok
  have same : middle.cursor = state.cursor := by
    rw [passed.cursor, nothing]; rfl
  have covers : middle.Covers below := by rwa [State.Covers, same]
  obtain ⟨last, ended, follows⟩ :=
    following value _ _ _ _ follows succeeded covers
  exact ⟨last, by rw [bind_apply, done]; exact ended, follows⟩

/-- Before work that gives the same on both, wherever they are. -/
theorem before (leading : Finishes below first second)
    (steady : ∀ value,
      Parallel (State.Follows below) Eq (next value) (further value)) :
    Finishes below (first >>= next) (second >>= further) := by
  intro state other result final follows succeeded covers
  obtain ⟨value, middle, done, succeeded⟩ := bind_ok succeeded
  obtain ⟨between, done, follows⟩ :=
    leading state other value middle follows done covers
  have paired := steady value middle between follows
  rw [succeeded] at paired
  obtain ⟨shown, last, ended, rfl, follows⟩ := paired.ok
  exact ⟨last, by rw [bind_apply, done]; exact ended, follows⟩

theorem form (fault : FormFault) :
    Finishes below (Compile.form fault : Compile α) (Compile.form fault) :=
  fun _ _ _ _ _ succeeded _ => absurd succeeded (by simp [Compile.form])

theorem guarded {condition : Prop} [Decidable condition] {fault : FormFault}
    {next further : PUnit → Compile α}
    (following : Finishes below (next ⟨⟩) (further ⟨⟩)) :
    Finishes below (if condition then Compile.form fault >>= next else next ⟨⟩)
      (if condition then Compile.form fault >>= further else further ⟨⟩) := by
  split
  · exact fun _ _ _ _ _ succeeded _ => absurd succeeded (by simp [Compile.form])
  · exact following

theorem onlyIf {condition : Prop} [Decidable condition]
    {first second : Compile PUnit} {next further : PUnit → Compile α}
    (steady : Parallel (State.Follows below) Eq first second)
    (stays : Takes (fun taken _ _ => taken = []) first)
    (following : Finishes below (next ⟨⟩) (further ⟨⟩)) :
    Finishes below (if condition then first >>= next else next ⟨⟩)
      (if condition then second >>= further else further ⟨⟩) := by
  split
  · exact still steady stays fun _ => following
  · exact following

end Finishes

/-- A text that stops somewhere stops there whatever follows. -/
theorem Nesting.spanUntil_following {stop : Char → Bool} {nesting : Nesting}
    {text rest : Text} {c : Char}
    (spans : nesting.spanUntil stop (text ++ c :: rest) = text) (more : Text) :
    nesting.spanUntil stop (text ++ c :: more) = text := by
  induction text generalizing nesting with
  | nil =>
      rw [List.nil_append, spanUntil] at spans ⊢
      split at spans
      · rename_i stops
        rw [if_pos stops]
      · simp at spans
  | cons d text ih =>
      rw [List.cons_append, spanUntil] at spans ⊢
      split at spans
      · simp at spans
      · rename_i goes
        rw [if_neg goes, ih (List.cons.inj spans).2]

private theorem Nesting.stop_of_spanUntil {stop : Char → Bool}
    {nesting : Nesting} {text rest : Text} {c : Char}
    (spans : nesting.spanUntil stop (text ++ c :: rest) = text) :
    stop c = true := by
  induction text generalizing nesting with
  | nil =>
      rw [List.nil_append, spanUntil] at spans
      split at spans
      · rename_i stops
        exact (Bool.and_eq_true _ _ ▸ stops).2
      · simp at spans
  | cons d text ih =>
      rw [List.cons_append, spanUntil] at spans
      split at spans
      · simp at spans
      · exact ih (List.cons.inj spans).2

theorem takeWhile_stops {kind : Char → Bool} {taken rest : Text}
    (whole : taken = (taken ++ rest).takeWhile kind) :
    (∀ c ∈ taken, kind c = true) ∧ ∀ c, rest.head? = some c →
      kind c = false := by
  have all : ∀ c ∈ taken, kind c = true := by
    rw [whole]
    exact fun c member => List.mem_takeWhile_imp member
  refine ⟨all, fun c head => ?_⟩
  obtain ⟨others, rfl⟩ := List.head?_eq_some_iff.mp head
  rw [List.takeWhile_append_of_pos all, List.takeWhile_cons] at whole
  by_contra holds
  rw [if_pos (by simpa using holds)] at whole
  simp at whole

theorem head_covered {kind : Char → Bool} {rest tail : Text}
    (stops : ∀ c, rest.head? = some c → kind c = false)
    (covered : rest ≠ [] ∨ tail = []) :
    ∀ c, (rest ++ tail).head? = some c → kind c = false := by
  cases rest with
  | nil =>
      obtain rfl : tail = [] := covered.resolve_left fun absent => absent rfl
      exact stops
  | cons d rest => exact stops

namespace Compile

variable {below : List Source}

private theorem reading_ok {α : Type} {reader : Reader α}
    {state final : State} {value : α}
    (read : reading reader state = .ok value final) :
    final = { state with cursor := final.cursor } := by
  unfold reading at read
  split at read
  · simp only [EStateM.Result.ok.injEq] at read
    rw [← read.2]
  · simp at read

section Replaying

variable {α : Type} {reader : Reader α} {effect : Text → α → Text → Prop}
  (takes : Takes effect (reading reader))
include takes

theorem follows_reading {state other final : State} {value : α}
    (follows : State.Follows below state other)
    (read : reading reader state = .ok value final)
    (replays : ∀ {taken rest}, state.At (taken ++ rest) → final.At rest →
      effect taken value rest → other.At (taken ++ (rest ++ textOf below)) →
      reading reader other = .ok value (other.pass taken.length)) :
    ∃ last, reading reader other = .ok value last ∧
      State.Follows below final last := by
  obtain ⟨taken, rest, passed, holds⟩ :=
    takes state value final follows.cursor.ready read
  have here : state.At (taken ++ rest) := ⟨follows.cursor.ready, passed.pending⟩
  have gone : final.At rest :=
    ⟨passed.ready follows.cursor.ready, passed.rest_eq follows.cursor.ready⟩
  have there := follows.there here
  rw [List.append_assoc] at there
  refine ⟨other.pass taken.length, replays here gone holds there, ?_⟩
  have same : final = state.pass taken.length := by
    rw [reading_ok read, passed.cursor, State.pass]
  rw [same]
  exact follows.pass here

/-- A reader that stops in the text stops there too if more follows. -/
theorem carries_reading
    (replays : ∀ {taken rest value} {other : State}, effect taken value rest →
      (rest ≠ [] ∨ textOf below = []) →
        other.At (taken ++ (rest ++ textOf below)) →
      reading reader other = .ok value (other.pass taken.length)) :
    Carries below (reading reader) (reading reader) where
  takes := takes.mono fun _ => trivial
  carries {state other value final} follows read covers := by
    refine follows_reading takes follows read fun here gone holds there => ?_
    rw [State.Covers, gone.pending] at covers
    exact replays holds covers there

/-- A reader that knows its end stops there whatever follows. -/
theorem finishes_reading
    (replays : ∀ {taken rest value} {other : State}, effect taken value rest →
      other.At (taken ++ (rest ++ textOf below)) →
      reading reader other = .ok value (other.pass taken.length)) :
    Finishes below (reading reader) (reading reader) := by
  intro state other value final follows read _
  exact follows_reading takes follows read fun _ _ holds there =>
    replays holds there

end Replaying

theorem carries_readName :
    Carries below (reading Reader.readName) (reading Reader.readName) := by
  refine carries_reading takes_readName
    fun {taken rest value other} holds covered there => ?_
  obtain ⟨rfl, whole⟩ := holds
  obtain ⟨all, stops⟩ := takeWhile_stops whole
  exact reading_readName there all (head_covered stops covered)

theorem carries_skipSpace :
    Carries below (reading Reader.skipSpace) (reading Reader.skipSpace) := by
  refine carries_reading takes_skipSpace
    fun {taken rest value other} whole covered there => ?_
  obtain ⟨all, stops⟩ := takeWhile_stops whole
  exact reading_skipSpace there all (head_covered stops covered)

theorem carries_readUntil (stops : List Char) :
    Carries below (reading (Reader.readUntil stops))
      (reading (Reader.readUntil stops)) := by
  refine carries_reading (takes_readUntil stops)
    fun {taken rest value other} holds covered there => ?_
  obtain ⟨rfl, spans, closed⟩ := holds
  refine reading_readUntil there ?_ closed
  cases rest with
  | nil =>
      rw [covered.resolve_left fun absent => absent rfl]
      exact spans.symm
  | cons c rest => exact Nesting.spanUntil_following spans.symm _

theorem finishes_expect (c : Char) :
    Finishes below (reading (Cursor.expect c)) (reading (Cursor.expect c)) := by
  refine finishes_reading (takes_expect c)
    fun {taken rest value other} single there => ?_
  subst single
  exact reading_expect there

theorem finishes_readGroup {opening closing : Char}
    (plainOpening : isQuote opening = false)
    (plainClosing : isQuote closing = false) :
    Finishes below (reading (Reader.readGroup opening closing))
      (reading (Reader.readGroup opening closing)) := by
  refine finishes_reading (takes_readGroup plainOpening plainClosing)
    fun {taken rest value other} holds there => ?_
  obtain ⟨rfl, found⟩ := holds
  have group :=
    reading_readGroup (by simpa using there) (spanGroup_following found _)
  rw [group]
  simp [Nat.add_comm, Nat.add_left_comm]

theorem needs_readGroup {opening closing : Char}
    (plainOpening : isQuote opening = false)
    (plainClosing : isQuote closing = false) :
    Needs (reading (Reader.readGroup opening closing)) :=
  (takes_readGroup plainOpening plainClosing).mono fun holds => by
    simp [holds.1]

theorem finishes_advance : Finishes below (reading (modify Cursor.advance))
    (reading (modify Cursor.advance)) := by
  intro state other value final follows read covers
  obtain rfl : state.pass 1 = final := by
    simpa [reading_advance] using read
  refine ⟨other.pass 1, rfl, { follows with cursor := ?_ }⟩
  cases pending : state.cursor.pending with
  | nil =>
      have nothing : textOf below = [] :=
        covers.resolve_left fun some => some pending
      have ended : other.cursor.pending = [] := by
        rw [follows.cursor.pending, pending, nothing, List.nil_append]
      have still := Cursor.advance_of_ended follows.cursor.ready pending
      have there := Cursor.advance_of_ended follows.cursor.shown ended
      rw [State.pass, State.pass, Cursor.advanceBy, Cursor.advanceBy,
        Cursor.advanceBy, Cursor.advanceBy, still, there]
      exact follows.cursor
  | cons c rest => exact follows.cursor.advance (by simp [pending])

theorem finishes_skipChar (c : Char) :
    Finishes below (reading (Reader.skipChar c))
      (reading (Reader.skipChar c)) := by
  intro state other value final follows read covers
  have same : other.cursor.isAt c = state.cursor.isAt c := by
    rw [Cursor.isAt, Cursor.isAt, follows.cursor.current covers]
  cases standing : state.cursor.isAt c with
  | true =>
      obtain ⟨rest, pending⟩ :=
        Cursor.pending_of_isAt follows.cursor.ready standing
      have here : state.At (c :: rest) := ⟨follows.cursor.ready, pending⟩
      rw [reading_skipChar here] at read
      rw [reading_skipChar (follows.there here)]
      exact finishes_advance state other value final follows read covers
  | false =>
      have skipped (state : State) (apart : state.cursor.isAt c = false) :
          reading (Reader.skipChar c) state = .ok ⟨⟩ state := by
        simp [reading, Reader.skipChar, apart]
      rw [skipped state standing] at read
      obtain rfl : state = final := by simpa using read
      exact ⟨other, skipped other (same.trans standing), follows⟩

open State

theorem finishes_closeBlock : Finishes below closeBlock closeBlock := by
  intro state other value final follows closed covers
  cases blocks : state.blocks with
  | nil => simp [closeBlock, blocks] at closed
  | cons block rest =>
      cases outer : state.scopes.outer with
      | nil => simp [closeBlock, blocks, resolving_pop, outer] at closed
      | cons frame frames =>
          let scopes : Scopes :=
            { state.scopes with inner := frame, outer := frames }
          rw [closeBlock_cons blocks outer] at closed
          obtain rfl := (EStateM.Result.ok.inj closed).2
          obtain ⟨advanced, done, moved⟩ :=
            finishes_advance state other ⟨⟩ _ follows reading_advance covers
          obtain rfl : other.pass 1 = advanced := by
            simpa [reading_advance] using done
          refine
            ⟨{ other with blocks := rest, scopes,
                          cursor := other.cursor.advance }, ?_,
            { follows with scopes := rfl, blocks := rfl,
                           cursor := moved.cursor }⟩
          rw [closeBlock_cons (follows.blocks ▸ blocks)
            (follows.scopes ▸ outer), ← follows.scopes]

private theorem steady_openBelow (block : Block) :
    Steady (Follows below) (openBlock block) :=
  .modifying fun _ _ follows =>
    { follows with
      scopes := congrArg Scopes.push follows.scopes
      blocks := congrArg (block :: ·) follows.blocks }

section

variable (environment : Environment)

theorem finishes_blockStatement :
    Finishes below (blockStatement environment)
      (blockStatement environment) := by
  have opening (block : Block) :
      Finishes below (do reading (Cursor.expect '{'); openBlock block)
      (do reading (Cursor.expect '{'); openBlock block) :=
    (finishes_expect '{').before fun _ => steady_openBelow block
  refine (carries_readUntil _).finishes (fun head => .still
    (steady_blockOf (Follows.sharesScopes below) environment Follows.blocks _)
    (.of_resolved (resolved_blockOf environment _)) opening) fun head => ?_
  refine .afterResolved (resolved_blockOf environment _) fun block => ?_
  exact (takes_expect '{').bind (fun _ => .of_still fun _ => rfl)
    fun single nothing => by
    simp [single, nothing]

theorem finishes_declare (raw : Text) :
    Finishes below (declare environment raw) (declare environment raw) := by
  refine .getThen fun seen shown follows _ => ?_
  rw [follows.blocks]
  split
  · exact .form _
  · split
    · exact .form _
    · refine .still
        (steady_interpolate (Follows.sharesScopes below) environment _)
        (.of_resolved (resolved_interpolate environment _))
          fun name => .guarded ?_
      refine .still
        (steady_resolveValue (Follows.sharesScopes below) environment _)
        (.of_resolved (resolved_resolveValue environment _))
          fun value => .guarded ?_
      exact .still (steady_addProperty (Follows.sharesSheet below) _ _ _)
        (takes_addProperty _ _ _) fun _ => finishes_skipChar ';'

theorem finishes_defineVariable (name raw : Text) :
    Finishes below (defineVariable environment name raw)
      (defineVariable environment name raw) := by
  refine .still (steady_resolveValue (Follows.sharesScopes below) environment _)
    (.of_resolved (resolved_resolveValue environment _)) fun value =>
      .getThen fun seen shown follows _ => ?_
  rw [follows.scopes]
  refine .still (.modifying fun _ _ follows => { follows with scopes := rfl })
    (.of_still fun _ => rfl) fun _ => ?_
  exact .onlyIf (parallel_record (Follows.sharesScopes below) _ _)
    (.of_resolved (resolved_record _)) (finishes_skipChar ';')

end

theorem carries_mixinName : Carries below mixinName mixinName :=
  carries_readName.bind fun _ =>
    .guarded (carries_skipSpace.bind fun _ => .pure _)

/-- The definition of a mixin at a known place. -/
def registerMixin (name : Text) (parameters : List Text) (file : Option Text)
    (line : Nat) :
    Compile Unit := do
  let body ← reading (Reader.readGroup '{' '}')
  let duplicate := (← get).mixins.contains name
  let mixin := { name, parameters, body, file, line : Mixin }
  modify fun state => { state with mixins := state.mixins.define mixin }
  record (.mixinDefined name)
  if duplicate then warn (.duplicateMixin name)

private theorem mixinBody_apply (name : Text) (parameters : List Text)
    (state : State) :
    mixinBody name parameters state =
      registerMixin name parameters state.cursor.file state.cursor.line state :=
  rfl

theorem finishes_registerMixin (name : Text) (parameters : List Text)
    (file : Option Text) (line : Nat) :
    Finishes below (registerMixin name parameters file line)
      (registerMixin name parameters file line) := by
  refine (finishes_readGroup rfl rfl).before fun body =>
    .getThen fun seen shown follows => ?_
  rw [follows.mixins]
  refine Parallel.after (.modifying fun _ _ follows =>
    { follows with mixins := by rw [follows.mixins] }) fun _ =>
      (parallel_record (Follows.sharesScopes below) _ _).after fun _ => ?_
  split
  · exact steady_warn (Follows.sharesScopes below) _
  · exact .pure rfl

theorem needs_mixinBody (name : Text) (parameters : List Text) :
    Needs (mixinBody name parameters) := by
  refine .getThen fun place => (needs_readGroup rfl rfl).bind
    (fun body => (?_ : Takes (fun _ _ _ => True) _)) fun some _ =>
      by simp [some]
  refine .getThen fun defining => .afterStill (fun _ => rfl) fun _ =>
    .afterResolved (resolved_record _) fun _ => ?_
  split
  · exact (Takes.of_resolved (resolved_warn _)).mono fun _ => trivial
  · exact .pure fun _ => trivial

theorem finishes_mixinBody (name : Text) (parameters : List Text) :
    Finishes below (mixinBody name parameters) (mixinBody name parameters) := by
  intro state other value final follows registered covers
  -- There is text left, so both stand in the same source.
  have same := follows.cursor.top
    ((needs_mixinBody name parameters).more follows.cursor.ready registered)
  rw [mixinBody_apply] at registered ⊢
  rw [Cursor.file, Cursor.line, same]
  exact finishes_registerMixin _ _ _ _ state other value final follows
    registered covers

theorem needs_mixinDirective : Needs mixinDirective := by
  rw [mixinDirective_eq]
  refine takes_mixinName.bind (fun name => (?_ : Takes (fun _ _ _ => True) _))
    fun named _ => by
    simp [named.2]
  refine .getThen fun seen => ?_
  split
  · refine (needs_readGroup rfl rfl).bind
      (fun list => (?_ : Takes (fun _ _ _ => True) _)) fun _ _ => trivial
    exact .afterResolved (.check _) fun _ => takes_skipSpace.bind
      (fun _ => needs_mixinBody name _) fun _ _ => trivial
  · exact (needs_mixinBody name _).mono fun _ => trivial

theorem finishes_mixinDirective :
    Finishes below mixinDirective mixinDirective := by
  have body (name : Text) (parameters : List Text) :
      Needs (do reading Reader.skipSpace; mixinBody name parameters) :=
    takes_skipSpace.bind (fun _ => needs_mixinBody name parameters)
      fun _ some => by simp [some]
  rw [mixinDirective_eq]
  refine carries_mixinName.finishes
    (fun name => .getThen fun seen shown follows covers => ?_)
    fun name => .getThen fun seen => ?_
  · have same : shown.cursor.isAt '(' = seen.cursor.isAt '(' := by
      rw [Cursor.isAt, Cursor.isAt, follows.cursor.current covers]
    rw [same]
    split
    · refine
        ((finishes_readGroup rfl rfl).carries
          (takes_readGroup rfl rfl)).finishes (fun list =>
        .still (steady_check _) (.of_resolved (.check _)) fun parameters =>
          carries_skipSpace.finishes
            (fun _ => finishes_mixinBody name parameters)
            fun _ => needs_mixinBody name parameters) fun list => ?_
      exact .afterResolved (.check _) fun parameters => body name parameters
    · exact finishes_mixinBody name []
  · split
    · refine (needs_readGroup rfl rfl).bind
        (fun list => (?_ : Takes (fun _ _ _ => True) _))
        fun some _ => by simp [some]
      exact .afterResolved (.check _) fun parameters =>
        (body name parameters).mono fun _ => trivial
    · exact needs_mixinBody name []

/-- A definition up to the end of its value. -/
def definitionHead : Compile (Text × Text) := do
  reading (modify Cursor.advance)
  let name ← reading Reader.readName
  if name.isEmpty then form .variableNameExpected
  reading Reader.skipSpace
  reading (Cursor.expect ':')
  let raw ← reading (Reader.readUntil [';', '}'])
  return (name, raw)

private theorem variableStatement_head (environment : Environment) :
    variableStatement environment = (do
      let (name, raw) ← definitionHead
      defineVariable environment name raw) := by
  rw [variableStatement_eq, definitionHead, bind_assoc]
  refine bind_congr fun _ => ?_
  rw [bind_assoc]
  refine bind_congr fun name => ?_
  dsimp only
  split
  · simp only [bind_assoc, pure_bind]
  · simp only [bind_assoc, pure_bind]

theorem carries_definitionHead : Carries below definitionHead definitionHead :=
  (finishes_advance.carries takes_advance).bind fun _ =>
    carries_readName.bind fun _ =>
    .guarded (carries_skipSpace.bind fun _ =>
      ((finishes_expect ':').carries (takes_expect ':')).bind fun _ =>
        (carries_readUntil _).bind fun _ => .pure _)

end Compile

/-- The text of a statement goes up to the first `;` or `}` at the top level. -/
def ToStop (taken rest : Text) : Prop :=
  Nesting.spanUntil [';', '}'].contains {} (taken ++ rest) = taken

theorem ToStop.prepend {front taken rest : Text}
    (idle : ∀ c ∈ front, isIdle c = true) (stops : ToStop taken rest) :
    ToStop (front ++ taken) rest := by
  induction front with
  | nil => exact stops
  | cons c front ih =>
      have later := ih fun d member => idle d (by simp [member])
      have quiet := idle c (by simp)
      have inside : [';', '}'].contains c = false := by
        have apart := inside_of_idle quiet
        simp only [Boundary.isBoundary, Bool.or_eq_false_iff,
          beq_eq_false_iff_ne] at apart
        simp [apart]
      unfold ToStop at later ⊢
      rw [List.cons_append, List.cons_append, Nesting.spanUntil, inside,
        Bool.and_false, Nesting.step_idle quiet, if_neg (by decide), later]

/-- The text begins with a definition that no `;` and no `}` ends. -/
def RunsOn (text : Text) : Prop :=
  (text.dropWhile isSpace).head? = some '$' ∧ ToStop text []

instance (text : Text) : Decidable (RunsOn text) :=
  inferInstanceAs (Decidable (_ ∧ _ = _))

namespace State

/-- No definition among the statements that are read from here on runs on. -/
def EndsDefinitions (environment : Environment) : (fuel : Nat) → State → Prop
  | 0, _ => True
  | fuel + 1, state =>
      ¬ RunsOn state.cursor.pending ∧
        match Compile.step environment state with
        | .ok true next => EndsDefinitions environment fuel next
        | _ => True

instance decidableEndsDefinitions (environment : Environment) :
    (fuel : Nat) → (state : State) →
      Decidable (EndsDefinitions environment fuel state)
  | 0, _ => .isTrue trivial
  | fuel + 1, state =>
      have : Decidable (match Compile.step environment state with
          | .ok true next => EndsDefinitions environment fuel next
          | _ => True) :=
        match Compile.step environment state with
        | .ok true next => decidableEndsDefinitions environment fuel next
        | .ok false _ => .isTrue trivial
        | .error _ _ => .isTrue trivial
      inferInstanceAs (Decidable (_ ∧ _))

end State

/-- An idle text in front of a statement belongs to it. -/
theorem Takes.toStop {α β : Type} {effect : Text → α → Text → Prop}
    {action : Compile α} {next : α → Compile β} (leading : Takes effect action)
    (idle : ∀ {taken value rest}, effect taken value rest → ∀ c ∈ taken,
      isIdle c = true)
    (following : ∀ value,
      Takes (fun taken _ rest => ToStop taken rest) (next value)) :
    Takes (fun taken _ rest => ToStop taken rest) (action >>= next) :=
  leading.bind following fun holds stops => stops.prepend (idle holds)

namespace Compile

open State

variable {below : List Source}

private theorem takes_definitionHead :
    Takes (fun taken _ rest => ∀ others, taken ++ rest = '$' :: others →
      ToStop taken rest)
      definitionHead := by
  refine takes_advance.bind (fun _ => takes_readName.toStop
    (fun holds c member =>
      idle_of_isNameChar ((takeWhile_stops holds.2).1 c member))
    fun name => .guarded (takes_skipSpace.toStop
      (fun whole c member =>
        idle_of_isSpace ((takeWhile_stops whole).1 c member))
      fun _ =>
        (takes_expect ':').toStop (fun single => by simp [single]; decide)
        fun _ => (takes_readUntil _).returning.mono fun holds => ?_)) ?_
  · obtain ⟨first, -, -, spans, -⟩ := holds
    exact spans.symm
  · intro before _ after _ rest single stops others starts
    rw [List.append_assoc] at starts
    rw [starts] at single
    rw [single]
    exact stops.prepend (by simp; decide)

/-- A definition that does not run on is defined on top of other sources as
well. -/
theorem follows_variableStatement (environment : Environment)
    {state other final : State} {value : Unit} {rest : Text}
    (follows : Follows below state other) (here : state.At ('$' :: rest))
    (definite : textOf below = [] ∨ ¬ ToStop ('$' :: rest) [])
    (defined : variableStatement environment state = .ok value final) :
    ∃ last, variableStatement environment other = .ok value last ∧
      Follows below final last := by
  rw [variableStatement_head] at defined ⊢
  obtain ⟨⟨name, raw⟩, middle, headed, defined⟩ := bind_ok defined
  obtain ⟨taken, left, passed, stops⟩ :=
    takes_definitionHead state (name, raw) middle here.ready headed
  have whole : taken ++ left = '$' :: rest := by
    rw [← passed.pending, here.pending]
  have covers : middle.Covers below := by
    rcases definite with nothing | ended
    · exact .inr nothing
    · refine .inl fun empty => ended ?_
      rw [passed.rest_eq here.ready] at empty
      have stop := stops rest whole
      rw [empty, List.append_nil] at whole
      rwa [empty, whole] at stop
  obtain ⟨between, headed, follows⟩ :=
    carries_definitionHead.carries follows headed covers
  obtain ⟨last, done, follows⟩ :=
    finishes_defineVariable environment name raw middle between value final
      follows defined covers
  exact ⟨last, by rw [bind_apply, headed]; exact done, follows⟩

/-- A declaration is inside of a block, which something behind it has to
close. -/
theorem declaration_covers {environment : Environment} {state final : State}
    {value : Unit} (ready : state.cursor.Ready)
    (declared : declaration environment state = .ok value final)
    (finishing : final.At [] → final.blocks = []) :
    ∃ raw middle, reading (Reader.readUntil [';', '}']) state = .ok raw middle ∧
      declare environment raw middle = .ok value final ∧
        middle.cursor.pending ≠ [] := by
  have same : final.blocks = state.blocks :=
    ((quiet_declaration environment).of_ok declared).blocks
  rw [declaration_eq] at declared
  obtain ⟨raw, middle, read, declared⟩ := bind_ok declared
  refine ⟨raw, middle, read, declared, fun empty => ?_⟩
  have inside : middle.blocks = state.blocks :=
    ((quiet_reading _).of_ok read).blocks
  obtain ⟨taken, rest, passed, -⟩ :=
    (takes_readUntil _) state raw middle ready read
  obtain ⟨more, left, further, -⟩ :=
    shut_declare environment raw middle value final
      (passed.ready ready) declared
  have nothing : left = [] := by
    have split := further.pending
    rw [empty] at split
    exact (List.append_eq_nil_iff.mp split.symm).2
  have outside : middle.blocks = [] := by
    rw [inside, ← same]
    exact finishing ⟨further.ready (passed.ready ready),
      by rw [further.rest_eq (passed.ready ready), nothing]⟩
  simp [declare, outside, form] at declared

/-- A boundary that is found is found whatever follows. -/
theorem ofText_following {text : Text} (found : Boundary.ofText text ≠ .ending)
    (more : Text) :
    Boundary.ofText (text ++ more) = Boundary.ofText text := by
  obtain ⟨rest, whole⟩ := Nesting.spanUntil_prefix Boundary.isBoundary {} text
  generalize spans : Nesting.spanUntil Boundary.isBoundary {} text =
    statement at whole
  subst text
  cases rest with
  | nil =>
      rw [Boundary.ofText, spans] at found
      simp [Boundary.ofChar?] at found
  | cons c rest =>
      have longer := Nesting.spanUntil_following spans (rest ++ more)
      rw [Boundary.ofText, Boundary.ofText, spans, List.append_assoc,
        List.cons_append, longer]
      simp

private theorem span_of_ending {text : Text}
    (ending : Boundary.ofText text = .ending) :
    Nesting.spanUntil Boundary.isBoundary {} text = text := by
  obtain ⟨rest, whole⟩ := Nesting.spanUntil_prefix Boundary.isBoundary {} text
  cases rest with
  | nil => rwa [List.append_nil, eq_comm] at whole
  | cons c rest =>
      generalize spans : Nesting.spanUntil Boundary.isBoundary {} text =
        statement at whole
      subst text
      have boundary := Nesting.stop_of_spanUntil spans
      rw [Boundary.ofText, spans, List.drop_left, List.head?_cons] at ending
      simp only [Boundary.isBoundary, Bool.or_eq_true, beq_iff_eq] at boundary
      rcases boundary with (rfl | rfl) | rfl
      all_goals simp [Boundary.ofChar?] at ending

private theorem spanUntil_wider {stop wider : Char → Bool}
    (more : ∀ c, stop c = true → wider c = true) {nesting : Nesting}
    {text : Text} (whole : nesting.spanUntil wider text = text) :
    nesting.spanUntil stop text = text := by
  induction text generalizing nesting with
  | nil => rfl
  | cons c rest ih =>
      rw [Nesting.spanUntil] at whole ⊢
      split at whole
      · simp at whole
      · rename_i goes
        have apart : (nesting.isTop c && stop c) = false := by
          rw [Bool.eq_false_iff]
          intro stops
          rw [Bool.and_eq_true] at goes stops
          exact goes ⟨stops.1, more c stops.2⟩
        rw [apart, if_neg (by decide), ih (List.cons.inj whole).2]

section

variable {environment : Environment} {state other final : State} {value : Unit}

theorem follows_declaration (follows : Follows below state other)
    (declared : declaration environment state = .ok value final)
    (finishing : final.At [] → final.blocks = []) :
    ∃ last, declaration environment other = .ok value last ∧
      Follows below final last := by
  obtain ⟨raw, middle, read, declared, more⟩ :=
    declaration_covers follows.cursor.ready declared finishing
  obtain ⟨between, shown, follows⟩ :=
    (carries_readUntil _).carries follows read (.inl more)
  obtain ⟨last, done, follows⟩ :=
    finishes_declare environment raw middle between value final follows
      declared (.inl more)
  exact ⟨last, by rw [declaration_eq, bind_apply, shown]; exact done, follows⟩

/-- In a text without boundaries, only a declaration that runs up to its end can
be read. -/
theorem boundary_of_declaration (ready : state.cursor.Ready)
    (declared : declaration environment state = .ok value final)
    (finishing : final.At [] → final.blocks = []) :
    Boundary.ofText state.cursor.pending ≠ .ending := by
  obtain ⟨raw, middle, read, -, more⟩ :=
    declaration_covers ready declared finishing
  obtain ⟨taken, rest, passed, -, spans, -⟩ :=
    (takes_readUntil _) state raw middle ready read
  rw [passed.rest_eq ready] at more
  intro ending
  rw [passed.pending] at ending
  have inside (c : Char) (stop : [';', '}'].contains c = true) :
      Boundary.isBoundary c = true := by
    have listed : c = ';' ∨ c = '}' := by simpa using stop
    rcases listed with rfl | rfl
    all_goals rfl
  rw [spanUntil_wider inside (span_of_ending ending)] at spans
  exact more (List.self_eq_append_right.mp spans)

theorem follows_statement (follows : Follows below state other)
    (stated : statement environment state = .ok value final)
    (more : state.cursor.pending ≠ [])
    (finishing : final.At [] → final.blocks = []) :
    ∃ last, statement environment other = .ok value last ∧
      Follows below final last := by
  have there := follows.cursor.pending
  simp only [statement, bind_apply, get_apply] at stated ⊢
  cases boundary : Boundary.ofText state.cursor.pending with
  | opening =>
      rw [there, ofText_following (by simp [boundary]), boundary]
      rw [boundary] at stated
      exact finishes_blockStatement environment state other value final follows
        stated (.inl more)
  | semicolon =>
      rw [there, ofText_following (by simp [boundary]), boundary]
      rw [boundary] at stated
      exact follows_declaration follows stated finishing
  | closing =>
      rw [there, ofText_following (by simp [boundary]), boundary]
      rw [boundary] at stated
      exact follows_declaration follows stated finishing
  | ending =>
      rw [boundary] at stated
      exact absurd boundary
        (boundary_of_declaration follows.cursor.ready stated finishing)

end

end Compile

private theorem Text.occurs_start {pattern rest : Text} :
    Text.occurs pattern (pattern ++ rest) = true := by
  cases whole : pattern ++ rest with
  | nil =>
      obtain rfl := (List.append_eq_nil_iff.mp whole).1
      rfl
  | cons c others =>
      have found : pattern.isPrefixOf (c :: others) = true := by
        rw [← whole, List.isPrefixOf_iff_prefix]
        exact List.prefix_append pattern rest
      rw [Text.occurs, found, Bool.true_or]

private theorem Text.occurs_drop {pattern front rest : Text}
    (absent : Text.occurs pattern (front ++ rest) = false) :
    Text.occurs pattern rest = false := by
  induction front with
  | nil => exact absent
  | cons c front ih =>
      rw [List.cons_append, Text.occurs, Bool.or_eq_false_iff] at absent
      exact ih absent.2

/-- No directive in the text can bring other text in. -/
def Inert (text : Text) : Prop :=
  ∀ word ∈ ["@import", "@include", "@if"], Text.occurs word.toList text = false

instance (text : Text) : Decidable (Inert text) :=
  inferInstanceAs (Decidable (∀ word ∈ _, _))

theorem Inert.drop {front rest : Text}
    (inert : Inert (front ++ rest)) : Inert rest :=
  fun word listed => Text.occurs_drop (inert word listed)

theorem Inert.suffix {text rest : Text} (inert : Inert text)
    (left : rest <:+ text) :
    Inert rest := by
  obtain ⟨front, rfl⟩ := left
  exact inert.drop

/-- What a successful action leaves is the end of what was there. -/
theorem Takes.suffix {α : Type} {effect : Text → α → Text → Prop}
    {action : Compile α} (takes : Takes effect action) {state final : State}
    {value : α} {text : Text} (here : state.At text)
    (succeeded : action state = .ok value final) :
    final.cursor.pending <:+ text := by
  obtain ⟨taken, rest, passed, -⟩ :=
    takes state value final here.ready succeeded
  rw [passed.rest_eq here.ready, ← here.pending, passed.pending]
  exact List.suffix_append taken rest

namespace Compile

open State

variable {below : List Source} {environment : Environment}
  {state other final : State} {rest : Text}

theorem directive_mixin {gap : Text}
    (here : state.At ("@mixin".toList ++ gap ++ rest))
    (space : ∀ c ∈ gap, isSpace c = true)
    (apart : ∀ c, (gap ++ rest).head? = some c → isNameChar c = false)
    (stops : ∀ c, rest.head? = some c → isSpace c = false)
    (outside : state.blocks = []) :
    directive environment state =
      mixinDirective (state.pass ("@mixin".toList ++ gap).length) := by
  have dispatched := @directive_at _ _ environment "mixin".toList gap
    (by rw [List.append_assoc] at here; exact here) (by decide)
      space apart stops
  rw [dispatched, if_pos (by decide), if_neg (by simpa using outside),
    List.length_append]
  rfl

/-- In an inert text the only directives are definitions of mixins. -/
theorem directive_inert {value : Unit} (here : state.At ('@' :: rest))
    (inert : Inert ('@' :: rest))
    (directed : directive environment state = .ok value final) :
    ∃ gap left, '@' :: rest = "@mixin".toList ++ gap ++ left ∧
      (∀ c ∈ gap, isSpace c = true) ∧
      (∀ c, (gap ++ left).head? = some c → isNameChar c = false) ∧
      (∀ c, left.head? = some c → isSpace c = false) ∧ state.blocks = [] := by
  obtain ⟨name, tail, rfl, nameChars, apart⟩ := split_while isNameChar rest
  obtain ⟨gap, left, rfl, spaces, stops⟩ := split_while isSpace tail
  rw [directive_at here nameChars spaces apart stops] at directed
  have absent (word : Text)
      (listed : String.ofList ('@' :: word) ∈ ["@import", "@include", "@if"]) :
      ¬ (name == word) = true := by
    intro same
    obtain rfl : name = word := by simpa using same
    have present := @Text.occurs_start ('@' :: name) (gap ++ left)
    have missing := inert _ listed
    rw [String.toList_ofList] at missing
    exact absurd (present.symm.trans missing) (by decide)
  split at directed
  case isTrue named =>
    obtain rfl : name = "mixin".toList := by simpa using named
    split at directed
    case isTrue => simp [form] at directed
    case isFalse outside =>
      exact ⟨gap, left, by simp, spaces, apart, stops, by simpa using outside⟩
  case isFalse =>
    rw [if_neg (absent "include".toList (by decide)),
      if_neg (absent "import".toList (by decide)),
      if_neg (absent "if".toList (by decide))] at directed
    simp at directed

/-- The definition of a mixin needs all of its text. -/
theorem follows_directive {value : Unit} (follows : Follows below state other)
    (here : state.At ('@' :: rest)) (inert : Inert ('@' :: rest))
    (directed : directive environment state = .ok value final) :
    (∃ last, directive environment other = .ok value last ∧
      Follows below final last) ∧
      final.cursor.pending <:+ '@' :: rest := by
  obtain ⟨gap, left, whole, spaces, apart, stops, outside⟩ :=
    directive_inert here inert directed
  rw [whole] at here ⊢
  rw [directive_mixin here spaces apart stops outside] at directed
  have more := needs_mixinDirective.more here.pass.ready directed
  rw [here.pass.pending] at more
  obtain ⟨c, tail, rfl⟩ := List.exists_cons_of_ne_nil more
  have there := follows.there here
  rw [List.append_assoc] at there
  rw [directive_mixin there spaces (by simpa using apart) (by simpa using stops)
    (follows.blocks ▸ outside)]
  have left := needs_mixinDirective.suffix here.pass directed
  exact ⟨finishes_mixinDirective _ _ _ _ (follows.pass here) directed
    (.inl (by rw [here.pass.pending]; simp)),
    left.trans (List.suffix_append _ _)⟩

/-- Where nothing is left there is no statement, and no block may be open. -/
theorem step_at_end {more : Bool} (here : state.At [])
    (stepped : step environment state = .ok more final) :
    more = false ∧ state.blocks = [] ∧ final = state := by
  rw [step_at here (by simp)] at stepped
  simp only [List.head?_nil, bind_apply, get_apply] at stepped
  split at stepped
  case isTrue closed =>
    obtain ⟨rfl, rfl⟩ : false = more ∧ state = final := by simpa using stepped
    exact ⟨rfl, by simpa using closed, rfl⟩
  case isFalse => simp [form] at stepped

private theorem closed_of_finished {fuel : Nat} {last : State}
    (here : state.At [])
    (ran : state.run environment fuel = (.finished, last)) :
    state.blocks = [] := by
  cases fuel with
  | zero => simp [State.run] at ran
  | succ fuel =>
      cases stepped : step environment state with
      | error error after => simp [State.run, stepped] at ran
      | ok more after => exact (step_at_end here stepped).2.1

/-- Statements are over where only white space is left. -/
theorem step_last (ready : state.cursor.Ready)
    (stepped : step environment state = .ok false final) :
    ∃ gap, state.At gap ∧ (∀ c ∈ gap, isSpace c = true) ∧ state.blocks = [] ∧
      final = state.pass gap.length := by
  obtain ⟨gap, rest, whole, spaces, stops⟩ :=
    split_while isSpace state.cursor.pending
  have here : state.At (gap ++ rest) := ⟨ready, whole⟩
  rw [step_skip here spaces stops] at stepped
  cases rest with
  | nil =>
      obtain ⟨-, closed, ended⟩ := step_at_end here.pass stepped
      exact ⟨gap, by rwa [List.append_nil] at here, spaces, closed, ended⟩
  | cons c rest =>
      have goes (action : Compile Unit) (other : State) :
          (do action; return true) other ≠ .ok false final := by
        intro stopped
        obtain ⟨_, middle, -, returned⟩ := bind_ok stopped
        simp at returned
      rw [step_at here.pass stops] at stepped
      generalize first : (c :: rest).head? = head at stepped
      split at stepped
      case h_1 => simp at first
      all_goals exact absurd stepped (goes _ _)

theorem follows_action {action : Compile Unit} {text : Text}
    (carried : action state = .ok () final →
      (∃ last, action other = .ok () last ∧ Follows below final last) ∧
        final.cursor.pending <:+ text)
    (done : (do action; return true) state = .ok true final) :
    (∃ last, (do action; return true) other = .ok true last ∧
      Follows below final last) ∧
      final.cursor.pending <:+ text := by
  obtain ⟨_, middle, acted, returned⟩ := bind_ok done
  obtain rfl : middle = final := by simpa using returned
  obtain ⟨⟨last, done, follows⟩, left⟩ := carried acted
  exact ⟨⟨last, by rw [bind_apply, done]; rfl, follows⟩, left⟩

theorem follows_step_at {c : Char} (follows : Follows below state other)
    (here : state.At (c :: rest)) (visible : isSpace c = false)
    (inert : Inert (c :: rest))
    (definite : textOf below = [] ∨ ¬ RunsOn (c :: rest))
    (stepped : step environment state = .ok true final)
    (finishing : final.At [] → final.blocks = []) :
    (∃ last, step environment other = .ok true last ∧
      Follows below final last) ∧
      final.cursor.pending <:+ c :: rest := by
  have there : other.At (c :: (rest ++ textOf below)) := follows.there here
  have more : state.cursor.pending ≠ [] := by simp [here.pending]
  by_cases closing : c = '}'
  · subst c
    rw [step_closing here] at stepped
    rw [step_closing there]
    refine follows_action (fun closed =>
      ⟨finishes_closeBlock _ _ _ _ follows closed (.inl more), ?_⟩) stepped
    have left : state.cursor.advance.pending = rest := here.passOne.pending
    rw [closeBlock_ok closed, left]
    exact List.suffix_cons '}' rest
  by_cases semicolon : c = ';'
  · subst c
    rw [step_at here (by simp [isSpace])] at stepped
    rw [step_at there (by simp [isSpace])]
    exact follows_action
      (fun passed => ⟨finishes_advance _ _ _ _ follows passed (.inl more),
      takes_advance.suffix here passed⟩) stepped
  by_cases dollar : c = '$'
  · subst c
    rw [step_variable here] at stepped
    rw [step_variable there]
    have ended : textOf below = [] ∨ ¬ ToStop ('$' :: rest) [] :=
      definite.imp_right fun ended runs => ended ⟨by simp [isSpace], runs⟩
    exact follows_action (fun defined =>
      ⟨follows_variableStatement environment follows here ended defined,
        (eats_variableStatement environment).suffix here defined⟩) stepped
  by_cases directing : c = '@'
  · subst c
    rw [step_directive here] at stepped
    rw [step_directive there]
    exact follows_action (follows_directive follows here inert) stepped
  have stating : c ∉ ['}', ';', '$', '@'] := by
    simp [closing, semicolon, dollar, directing]
  rw [step_statement here visible stating] at stepped
  rw [step_statement there visible stating]
  exact follows_action
    (fun stated => ⟨follows_statement follows stated more finishing,
    (eats_statement environment).suffix here stated⟩) stepped

private theorem runsOn_append {gap : Text}
    (spaces : ∀ c ∈ gap, isSpace c = true) (runs : RunsOn rest) :
    RunsOn (gap ++ rest) := by
  refine ⟨by rw [List.dropWhile_append_of_pos spaces]; exact runs.1, ?_⟩
  exact runs.2.prepend fun c member => idle_of_isSpace (spaces c member)

/-- A statement on its own and on top of other sources. -/
theorem follows_step (follows : Follows below state other)
    (inert : Inert state.cursor.pending)
    (definite : textOf below = [] ∨ ¬ RunsOn state.cursor.pending)
    (stepped : step environment state = .ok true final)
    (finishing : final.At [] → final.blocks = []) :
    (∃ last, step environment other = .ok true last ∧
      Follows below final last) ∧
      final.cursor.pending <:+ state.cursor.pending := by
  obtain ⟨gap, rest, whole, spaces, stops⟩ :=
    split_while isSpace state.cursor.pending
  have here : state.At (gap ++ rest) := ⟨follows.cursor.ready, whole⟩
  rw [whole] at inert definite ⊢
  rw [step_skip here spaces stops] at stepped
  cases rest with
  | nil => exact absurd (step_at_end here.pass stepped).1 (by simp)
  | cons c rest =>
      have there := follows.there here
      rw [List.append_assoc] at there
      rw [step_skip there spaces (by simpa using stops)]
      obtain ⟨carried, left⟩ :=
        follows_step_at (follows.pass here) here.pass (stops c rfl)
        inert.drop (definite.imp_right
          fun ended runs => ended (runsOn_append spaces runs))
        stepped finishing
      exact ⟨carried, left.trans (List.suffix_append gap _)⟩

/-- White space makes no difference to a step. -/
theorem step_pass {gap : Text} (here : state.At (gap ++ rest))
    (spaces : ∀ c ∈ gap, isSpace c = true) :
    step environment state = step environment (state.pass gap.length) := by
  obtain ⟨more, left, rfl, spacesMore, stops⟩ := split_while isSpace rest
  have all : ∀ c ∈ gap ++ more, isSpace c = true := by
    intro c member
    rcases List.mem_append.mp member with member | member
    · exact spaces c member
    · exact spacesMore c member
  have there : state.At ((gap ++ more) ++ left) := by rwa [List.append_assoc]
  rw [step_skip there all stops,
    step_skip here.pass spacesMore stops, pass_pass, List.length_append]

private theorem run_of_step {state other : State}
    (same : step environment state = step environment other) (fuel : Nat) :
    state.run environment (fuel + 1) = other.run environment (fuel + 1) := by
  rw [State.run, State.run, same]

/-- `next` has come to the sources `below` with all that `last` has at its
end. -/
structure Resumes (below : List Source) (last next : State) : Prop where
  scopes : last.scopes = next.scopes
  sheet : last.sheet = next.sheet
  mixins : last.mixins = next.mixins
  closed : last.blocks = []
  blocks : next.blocks = []
  cursor : next.cursor.Draws below

private theorem draws_of_ended (follows : Follows below state other)
    (here : state.At []) :
    other.cursor.Draws below := by
  cases follows.cursor with
  | within _ current =>
      have pending := here.pending
      simp [Cursor.pending, current] at pending
  | beyond _ _ draws => exact draws

/-- A file that can be read to its end is read in the same way on top of other
sources, and reading goes on in them. -/
theorem run_follows {fuel : Nat} {last : State}
    (follows : Follows below state other) (inert : Inert state.cursor.pending)
    (definite : textOf below = [] ∨ state.EndsDefinitions environment fuel)
    (ran : state.run environment fuel = (.finished, last)) :
    ∃ used next, Resumes below last next ∧
      ∀ more, other.run environment (used + more + 1) =
        next.run environment (more + 1) := by
  induction fuel generalizing state other with
  | zero => simp [State.run] at ran
  | succ fuel ih =>
      rw [State.run] at ran
      cases stepped : step environment state with
      | error error after => simp [stepped] at ran
      | ok more after =>
          rw [stepped] at ran
          cases more with
          | true =>
              obtain ⟨⟨between, done, follows⟩, left⟩ :=
                follows_step follows inert (definite.imp_right And.left) stepped
                  (fun here => closed_of_finished here ran)
              obtain ⟨used, next, resumes, same⟩ :=
                ih follows (inert.suffix left)
                (definite.imp_right
                  fun ended => by simpa [stepped] using ended.2) ran
              refine ⟨used + 1, next, resumes, fun more => ?_⟩
              have first : used + 1 + more + 1 = (used + more + 1) + 1 := by
                omega
              rw [← same more, first, State.run, done]
          | false =>
              -- The white space at the end is passed over together with what is
              -- below.
              obtain rfl : after = last := by simpa using ran
              obtain ⟨gap, here, spaces, closed, rfl⟩ :=
                step_last follows.cursor.ready stepped
              have ended : state.At (gap ++ []) := by rwa [List.append_nil]
              have resumed := draws_of_ended (follows.pass ended) ended.pass
              refine ⟨0, other.pass gap.length,
                ⟨follows.scopes, follows.sheet, follows.mixins, closed,
                  follows.blocks ▸ closed, resumed⟩, fun more => ?_⟩
              rw [Nat.zero_add]
              exact run_of_step (step_pass (follows.there here) spaces) more

end Compile

end Stylesheet
