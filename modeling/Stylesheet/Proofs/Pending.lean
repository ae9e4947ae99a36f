import Stylesheet.Proofs.Effect

/-!
# Pending text

A cursor is a position in one pending text, whatever sources that text is
spliced together from.  `layers` shows the text source by source, the current
character given back to its source.  Moving on drops characters from the front
(`skip`), and sources that have run out are dropped with their last character,
except for the lowest.
-/

namespace Stylesheet

/-- Drops characters from the front of a stack of texts.  A text that has run
out is dropped too, unless it is the lowest. -/
def skip (count : Nat) : List Text → List Text
  | [] => []
  | [text] => [text.drop count]
  | text :: next :: lower =>
      if count < text.length then text.drop count :: next :: lower
      else skip (count - text.length) (next :: lower)

theorem flatten_skip (count : Nat) (texts : List Text) :
    (skip count texts).flatten = texts.flatten.drop count := by
  fun_induction skip count texts with
  | case1 => simp
  | case2 => simp
  | case3 count text next lower within =>
      simp only [List.flatten_cons]
      rw [List.drop_append_of_le_length (by omega)]
  | case4 count text next lower exhausted ih =>
      have whole : (text :: next :: lower).flatten =
          text ++ (next :: lower).flatten := rfl
      rw [ih, whole, List.drop_append,
        List.drop_eq_nil_of_le (by omega : text.length ≤ count),
        List.nil_append]

theorem skip_skip (first second : Nat) (texts : List Text) :
    skip second (skip first texts) = skip (first + second) texts := by
  fun_induction skip first texts with
  | case1 => rfl
  | case2 first text => simp [skip]
  | case3 first text next lower within =>
      simp only [skip, List.length_drop, List.drop_drop]
      by_cases more : first + second < text.length
      · rw [if_pos more, if_pos (by omega)]
      · rw [if_neg more, if_neg (by omega)]
        congr 1
        omega
  | case4 first text next lower exhausted ih =>
      rw [ih, skip, if_neg (by omega)]
      congr 1
      omega

theorem skip_zero_cons {text : Text} (nonempty : text ≠ [])
    (texts : List Text) :
    skip 0 (text :: texts) = text :: texts := by
  cases texts with
  | nil => rfl
  | cons next lower =>
      rw [skip, if_pos (List.length_pos_iff.mpr nonempty), List.drop_zero]

namespace Cursor

/-- The unread text source by source, the top one with the current character. -/
def layers (cursor : Cursor) : List Text :=
  (cursor.current.toList ++ cursor.top.text) :: cursor.below.map Source.text

/-- The first character has been taken: only at the end is there no current
one. -/
def Ready (cursor : Cursor) : Prop :=
  cursor.current = none → cursor.top.text = [] ∧ cursor.below = []

theorem unread_eq_flatten (top : Source) (below : List Source) :
    unread top below = (top.text :: below.map Source.text).flatten := by
  induction below generalizing top with
  | nil => simp [unread]
  | cons next below ih => simp [unread, ih]

theorem flatten_layers (cursor : Cursor) :
    cursor.layers.flatten = cursor.pending := by
  unfold layers pending
  cases cursor.current with
  | none => simp [unread_eq_flatten]
  | some c => simp [unread_eq_flatten]

theorem layers_ne_nil (cursor : Cursor) : cursor.layers ≠ [] := by
  simp [layers]

theorem draw_cons {top : Source} {c : Char} {rest : Text}
    (found : top.text = c :: rest) (below : List Source) :
    draw top below =
      (some c,
        { top with text := rest, line := if c == '\n' then top.line + 1
                     else top.line },
        below) := by
  unfold draw
  simp only [found]

theorem draw_last {top : Source} (ended : top.text = []) :
    draw top [] = (none, top, []) := by
  unfold draw
  simp only [ended]

theorem draw_next {top : Source} (ended : top.text = []) (next : Source)
    (below : List Source) :
    draw top (next :: below) = draw next below := by
  conv => lhs; unfold draw
  simp only [ended]

/-- What is drawn is the first character, and the rest stays in its sources. -/
theorem draw_layers (top : Source) (below : List Source) :
    ((draw top below).1.toList ++ (draw top below).2.1.text) ::
        (draw top below).2.2.map Source.text =
      skip 0 (top.text :: below.map Source.text) := by
  fun_induction draw top below with
  | case1 top below c rest found =>
      cases below with
      | nil => simp [skip, found]
      | cons next below => simp [skip, found]
  | case2 top found => simp [skip, found]
  | case3 top next below found ih => simp [skip, found, ih]

theorem draw_ready (top : Source) (below : List Source)
    (ended : (draw top below).1 = none) :
    (draw top below).2.1.text = [] ∧ (draw top below).2.2 = [] := by
  fun_induction draw top below with
  | case1 => simp at ended
  | case2 top found => exact ⟨found, rfl⟩
  | case3 top next below found ih => exact ih ended

theorem ready_advance (cursor : Cursor) : cursor.advance.Ready :=
  draw_ready cursor.top cursor.below

theorem layers_advance {cursor : Cursor} (ready : cursor.Ready) :
    cursor.advance.layers = skip 1 cursor.layers := by
  have drawn : cursor.advance.layers =
      skip 0 (cursor.top.text :: cursor.below.map Source.text) :=
    draw_layers cursor.top cursor.below
  rw [drawn, layers]
  cases current : cursor.current with
  | none =>
      obtain ⟨text, below⟩ := ready current
      simp [skip, text, below]
  | some c =>
      cases cursor.below with
      | nil => simp [skip]
      | cons next below =>
          simp only [List.map_cons, skip, Option.toList_some,
            List.singleton_append, List.length_cons, List.drop_succ_cons,
            List.drop_zero]
          by_cases left : 0 < cursor.top.text.length
          · rw [if_pos left, if_pos (by omega)]
          · rw [if_neg left, if_neg (by omega)]
            congr 1
            omega

theorem ready_advanceBy {cursor : Cursor} (ready : cursor.Ready) (count : Nat) :
    (cursor.advanceBy count).Ready := by
  induction count generalizing cursor with
  | zero => exact ready
  | succ count ih => exact ih (ready_advance cursor)

private theorem skip_zero_layers {cursor : Cursor} (ready : cursor.Ready) :
    skip 0 cursor.layers = cursor.layers := by
  unfold layers
  cases current : cursor.current with
  | none =>
      obtain ⟨text, below⟩ := ready current
      simp [skip, text, below]
  | some c =>
      cases cursor.below with
      | nil => simp [skip]
      | cons next below => simp [skip]

theorem layers_advanceBy {cursor : Cursor} (ready : cursor.Ready)
    (count : Nat) :
    (cursor.advanceBy count).layers = skip count cursor.layers := by
  induction count generalizing cursor with
  | zero => exact (skip_zero_layers ready).symm
  | succ count ih =>
      rw [advanceBy, ih (ready_advance cursor), layers_advance ready,
        skip_skip, Nat.add_comm]

theorem layers_ofText (text : Text) (file : Option Text) :
    (ofText text file).advance.layers = [text] := by
  have drawn := draw_layers { text, file, line := 1 } []
  rwa [List.map_nil, skip, List.drop_zero] at drawn

/-- The rest of a text is all there is behind its front. -/
theorem layers_passed (text rest : Text) (file : Option Text) :
    ((ofText (text ++ rest) file).advance.advanceBy text.length).layers =
      [rest] := by
  rw [layers_advanceBy (ready_advance _), layers_ofText, skip, List.drop_left]

theorem pending_advanceBy {cursor : Cursor} (ready : cursor.Ready)
    (count : Nat) :
    (cursor.advanceBy count).pending = cursor.pending.drop count := by
  rw [← flatten_layers, layers_advanceBy ready, flatten_skip, flatten_layers]

theorem advanceBy_add (cursor : Cursor) (first second : Nat) :
    cursor.advanceBy (first + second) =
      (cursor.advanceBy first).advanceBy second := by
  induction first generalizing cursor with
  | zero => rw [Nat.zero_add, advanceBy]
  | succ first ih => rw [Nat.succ_add, advanceBy, ih, advanceBy]

theorem current_eq_head? {cursor : Cursor} (ready : cursor.Ready) :
    cursor.current = cursor.pending.head? := by
  unfold pending
  cases current : cursor.current with
  | none =>
      obtain ⟨text, below⟩ := ready current
      simp [unread, text, below]
  | some c => simp

theorem pending_of_isAt {cursor : Cursor} {c : Char} (ready : cursor.Ready)
    (standing : cursor.isAt c = true) : ∃ rest, cursor.pending = c :: rest := by
  have head := current_eq_head? ready
  rw [isAt, beq_iff_eq] at standing
  rw [standing] at head
  exact List.head?_eq_some_iff.mp head.symm

theorem advance_of_ended {cursor : Cursor} (ready : cursor.Ready)
    (ended : cursor.pending = []) :
    cursor.advance = cursor := by
  have head := current_eq_head? ready
  rw [ended] at head
  obtain ⟨text, below⟩ := ready head
  have drawn : draw cursor.top cursor.below = (none, cursor.top, []) := by
    rw [below, draw_last text]
  unfold advance
  rw [drawn, head]
  cases cursor
  simp_all [remember]

theorem skipSpace_eq {cursor : Cursor} (ready : cursor.Ready) :
    cursor.skipSpace =
      cursor.advanceBy (cursor.pending.takeWhile isSpace).length := by
  have head := current_eq_head? ready
  unfold skipSpace
  cases current : cursor.current with
  | none =>
      have ended : cursor.pending = [] := by
        rw [current] at head
        exact List.head?_eq_none_iff.mp head.symm
      rw [ended]
      rfl
  | some c => rfl

/-- A source that fits is put in front of what was there. -/
theorem layers_insert {cursor after : Cursor} {source : Source}
    (inserted : cursor.insert source = .ok after) :
    after.Ready ∧ after.layers = skip 0 (source.text :: cursor.layers) ∧
      cursor.layers.length < maxSources := by
  unfold insert at inserted
  split at inserted
  · simp at inserted
  · rename_i room
    simp only [Except.ok.injEq] at inserted
    subst after
    refine ⟨ready_advance _, ?_, by simpa [layers] using room⟩
    have drawn :=
      draw_layers source (cursor.putBack.top :: cursor.putBack.below)
    have given : (cursor.putBack.top :: cursor.putBack.below).map Source.text =
        cursor.layers := by
      unfold putBack layers
      cases cursor.current with
      | none => simp
      | some c => simp
    rw [given] at drawn
    exact drawn

end Cursor

theorem Compile.splice_ok {source : Source} {state final : State} {value : Unit}
    (succeeded : splice source state = .ok value final) :
    state.cursor.insert source = .ok final.cursor := by
  simp only [splice, bind_apply, get_apply] at succeeded
  cases inserted : state.cursor.insert source with
  | error error => simp [inserted, check] at succeeded
  | ok cursor =>
      simp only [inserted, check, pure_apply, modify_apply,
        EStateM.Result.ok.injEq] at succeeded
      rw [← succeeded.2]

/-- A source fits if there are not too many already. -/
theorem Compile.splice_room {state : State} (source : Source)
    (room : state.cursor.layers.length < Cursor.maxSources) :
    ∃ cursor, splice source state = .ok ⟨⟩ { state with cursor } ∧
      cursor.Ready ∧
      cursor.layers = skip 0 (source.text :: state.cursor.layers) := by
  have fits : ¬ Cursor.maxSources ≤ state.cursor.below.length + 1 := by
    simpa [Cursor.layers] using room
  obtain ⟨cursor, inserted⟩ : ∃ cursor,
      state.cursor.insert source = .ok cursor := by
    unfold Cursor.insert
    rw [if_neg fits]
    exact ⟨_, rfl⟩
  obtain ⟨ready, layers, -⟩ := Cursor.layers_insert inserted
  refine ⟨cursor, ?_, ready, layers⟩
  simp only [splice, bind_apply, get_apply, inserted, check,
    pure_apply, modify_apply]

theorem Compile.splice_full {source : Source} {state : State}
    (full : Cursor.maxSources ≤ state.cursor.below.length + 1) :
    splice source state = .error (.endless .expansion) state := by
  simp only [splice, bind_apply, get_apply, Cursor.insert, if_pos full,
    check, throw_apply]

end Stylesheet
