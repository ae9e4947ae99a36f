import Stylesheet.Cursor.Lazy
import Stylesheet.Cursor.Nesting

/-!
# Reading at a lazy cursor

The end of the statement at a lazy cursor can be looked for without moving, and
it can be moved to.  Looking ahead fills the queues of the sources.  Moving
empties them, and gives up the sources that have ended.
-/

namespace Stylesheet

namespace LazySource

theorem size_pull (source : LazySource) (count : Nat) :
    (source.pull count).2.size ≤ source.size ∧
      ((source.pull count).1 = true →
        (source.pull count).2.queue.length = source.queue.length + count) := by
  fun_induction pull source count with
  | case1 source => exact ⟨Nat.le_refl _, fun _ => rfl⟩
  | case2 source count c feed asked ih =>
      have shape : source.feed = some c :: feed := by
        unfold Feed.ask at asked
        split at asked <;> simp_all
      obtain ⟨smaller, full⟩ := ih
      constructor
      · simp only [size, shape, List.length_append, List.length_cons,
          List.length_nil] at smaller ⊢
        omega
      · intro enough
        rw [full enough, List.length_append, List.length_singleton]
        omega
  | case3 source count feed asked =>
      have shorter : feed.length ≤ source.feed.length := by
        unfold Feed.ask at asked
        split at asked <;> simp_all
      constructor
      · simp only [size]
        omega
      · intro impossible
        contradiction

theorem size_fill (source : LazySource) (count : Nat) :
    (source.fill count).2.size ≤ source.size ∧
      ((source.fill count).1 = true → count ≤ (source.fill count).2.size) := by
  obtain ⟨smaller, full⟩ := source.size_pull (count - source.queue.length)
  refine ⟨smaller, fun enough => ?_⟩
  have queued := full enough
  unfold fill size
  omega

end LazySource

namespace LazyCursor

/-- Looking ahead adds nothing to what is still to come, and finds only what is
there. -/
theorem size_look (count : Nat) (top : LazySource) (below : List LazySource) :
    (look count top below).2.1.size + LazySource.sizes
      (look count top below).2.2 ≤
        top.size + LazySource.sizes below ∧
      ((look count top below).1.isSome →
        count < top.size + LazySource.sizes below) := by
  fun_induction look count top below with
  | case1 count top filled below found =>
      obtain ⟨smaller, full⟩ := top.size_fill (count + 1)
      rw [found] at smaller full
      have enough := full rfl
      dsimp only at smaller enough ⊢
      omega
  | case2 count top filled found =>
      obtain ⟨smaller, -⟩ := top.size_fill (count + 1)
      rw [found] at smaller
      refine ⟨?_, by simp⟩
      simpa [LazySource.sizes] using smaller
  | case3 count top filled next below found c ahead lower looked ih =>
      obtain ⟨smaller, -⟩ := top.size_fill (count + 1)
      rw [found] at smaller
      rw [looked] at ih
      obtain ⟨shorter, within⟩ := ih
      have queued : filled.queue.length ≤ filled.size := by
        simp [LazySource.size]
      simp only [LazySource.sizes] at smaller shorter within ⊢
      refine ⟨by omega, fun some => ?_⟩
      have behind := within some
      omega

/-- The character `count` places from the cursor; the current one has no place
between. -/
def charAt (cursor : LazyCursor) : (count : Nat) → Option Char × LazyCursor
  | 0 => (cursor.current, cursor)
  | count + 1 => cursor.peekNth count

theorem size_charAt (cursor : LazyCursor) (count : Nat) :
    (cursor.charAt count).2.size ≤ cursor.size ∧
      ((cursor.charAt count).1.isSome → count ≤ cursor.size) := by
  cases count with
  | zero => exact ⟨Nat.le_refl _, fun _ => Nat.zero_le _⟩
  | succ count =>
      obtain ⟨smaller, within⟩ := size_look count cursor.top cursor.below
      simp only [charAt, peekNth, size]
      rcases looked : look count cursor.top cursor.below with ⟨c, top, below⟩
      rw [looked] at smaller within
      dsimp only at smaller within ⊢
      refine ⟨by omega, fun some => ?_⟩
      have behind := within some
      omega

/-- What ends the statement that has gone on for `count` characters. -/
def boundaryFrom (nesting : Nesting) (count : Nat) (cursor : LazyCursor) :
    Boundary × LazyCursor :=
  match _found : cursor.charAt count with
  | (none, ahead) => (.ending, ahead)
  | (some c, ahead) =>
      if nesting.isTop c && Boundary.isBoundary c then
        (.ofChar? (some c), ahead)
      else boundaryFrom (nesting.step c) (count + 1) ahead
termination_by cursor.size + 1 - count
decreasing_by
  obtain ⟨smaller, within⟩ := cursor.size_charAt count
  rw [_found] at smaller within
  have behind := within rfl
  dsimp only at smaller
  omega

/-- What ends the statement at the cursor. -/
def boundary (cursor : LazyCursor) : Boundary × LazyCursor :=
  boundaryFrom {} 0 cursor

/-- Passes over the text up to the first character at the top level that is one
of `stops`, or up to the end.  The nesting takes that character in, too. -/
def passUntil (stops : List Char) (nesting : Nesting) (cursor : LazyCursor) :
    Text × Nesting × LazyCursor :=
  match _standing : cursor.current with
  | none => ([], nesting, cursor)
  | some c =>
      if nesting.isTop c && stops.contains c then ([], nesting.step c, cursor)
      else
        let (text, nesting, after) :=
          passUntil stops (nesting.step c) cursor.advance
        (c :: text, nesting, after)
termination_by cursor.size
decreasing_by exact size_advance_lt (by simp [_standing])

/-- The text up to the first character at the top level that is one of `stops`,
or up to the end. -/
def readUntil (stops : List Char) :
    EStateM Error LazyCursor Text := fun cursor =>
  let (text, nesting, after) := cursor.passUntil stops {}
  match nesting.checkClosed with
  | .ok () => .ok text after
  | .error error => .error error after

end LazyCursor

end Stylesheet
