import Stylesheet.Cursor.LazyReading
import Stylesheet.Proofs.Page
import Stylesheet.Proofs.Reading

/-!
# Where statements end

A statement is looked at before it is read: what ends it tells whether it is a
block or a declaration.  Looking goes through the queues of the sources and
moves nothing; reading moves on character by character and gives up the sources
that have ended.  Both find the first character at the top level that ends a
statement, and it is the same one.
-/

namespace Stylesheet

namespace Nesting

/-- No character of the text that stands at the top level is a stop. -/
def Passes (stop : Char → Bool) (nesting : Nesting) (text : Text) : Prop :=
  nesting.Along (fun nesting c => nesting.isTop c = true → stop c = false) text

variable {stop : Char → Bool} {nesting : Nesting} {text front : Text} {c : Char}

theorem Passes.mono {wider : Char → Bool} (passes : Passes wider nesting text)
    (narrower : ∀ c, stop c = true → wider c = true) :
    Passes stop nesting text := by
  refine Along.mono passes fun nesting c passed top => ?_
  cases stops : stop c with
  | false => rfl
  | true =>
      rw [narrower c stops] at passed
      exact passed top

/-- A text is read up to a stop, if it passes over all that stands before. -/
theorem Passes.spanUntil_stop (passes : Passes stop nesting front)
    (top : (nesting.after front).isTop c = true) (stops : stop c = true)
    (rest : Text) :
    nesting.spanUntil stop (front ++ c :: rest) = front := by
  induction front generalizing nesting with
  | nil =>
      have here : nesting.isTop c = true := top
      simp [spanUntil, here, stops]
  | cons d front ih =>
      obtain ⟨first, others⟩ := along_cons.mp passes
      have goes : (nesting.isTop d && stop d) = false := by
        cases standing : nesting.isTop d with
        | false => rfl
        | true => simp [first standing]
      rw [List.cons_append, spanUntil, goes, if_neg Bool.false_ne_true,
        ih others top]

theorem Passes.spanUntil_whole (passes : Passes stop nesting text) :
    nesting.spanUntil stop text = text := by
  induction text generalizing nesting with
  | nil => rfl
  | cons d rest ih =>
      obtain ⟨first, others⟩ := along_cons.mp passes
      have goes : (nesting.isTop d && stop d) = false := by
        cases standing : nesting.isTop d with
        | false => rfl
        | true => simp [first standing]
      rw [spanUntil, goes, if_neg Bool.false_ne_true, ih others]

/-- What is read passes over no stop, and goes up to one or up to the end. -/
theorem spanUntil_cases (stop : Char → Bool) (nesting : Nesting) (text : Text) :
    Passes stop nesting (nesting.spanUntil stop text) ∧
      (nesting.spanUntil stop text = text ∨
        ∃ c rest, text = nesting.spanUntil stop text ++ c :: rest ∧
          (nesting.after (nesting.spanUntil stop text)).isTop c = true ∧
            stop c = true) := by
  induction text generalizing nesting with
  | nil => exact ⟨along_nil, .inl rfl⟩
  | cons d rest ih =>
      cases stops : nesting.isTop d && stop d with
      | true =>
          rw [spanUntil, if_pos stops]
          rw [Bool.and_eq_true] at stops
          exact ⟨along_nil, .inr ⟨d, rest, rfl, stops⟩⟩
      | false =>
          obtain ⟨passes, ends⟩ := ih (nesting.step d)
          rw [spanUntil, if_neg (by simp [stops])]
          constructor
          · refine along_cons.mpr ⟨fun top => ?_, passes⟩
            simpa [top] using stops
          · rcases ends with whole | ⟨c, behind, same, found⟩
            · left
              rw [whole]
            · right
              refine ⟨c, behind, ?_, found⟩
              rw [List.cons_append, ← same]

/-- What stands at the top level leaves the strings and interpolations
closed. -/
theorem checkClosed_of_isTop (top : nesting.isTop c = true) :
    nesting.checkClosed = .ok () ∧ (nesting.step c).checkClosed = .ok () := by
  unfold isTop at top
  rw [Bool.and_eq_true, Bool.not_eq_true'] at top
  obtain ⟨flat, entering⟩ := top
  simp only [Bool.and_eq_true, beq_iff_eq, bne_iff_ne, Bool.not_eq_true']
    at flat
  obtain ⟨⟨⟨⟨⟨outside, -⟩, interpolations⟩, quote⟩, opening⟩, closing⟩ := flat
  constructor
  · simp [checkClosed, outside, interpolations]
  · simp [step, checkClosed, outside, quote, interpolations, opening,
      closing, entering]

/-- What is open at the end of a reading decides how it fails. -/
private theorem checkClosed_cases (nesting : Nesting) :
    nesting.quoting = .outside ∧ nesting.interpolations = 0 ∧
        nesting.checkClosed = .ok () ∨
      nesting.quoting ≠ .outside ∧
        nesting.checkClosed = .error (.form .stringOpen) ∨
      0 < nesting.interpolations ∧
        nesting.checkClosed = .error (.form .interpolationOpen) := by
  by_cases outside : nesting.quoting.isOutside = true
  · by_cases flat : nesting.interpolations = 0
    · exact .inl ⟨Quoting.eq_outside outside, flat,
        by simp [checkClosed, outside, flat]⟩
    · have deep := Nat.pos_of_ne_zero flat
      exact .inr (.inr ⟨deep, by simp [checkClosed, outside, deep]⟩)
  · refine .inr (.inl ⟨fun closed => ?_, by simp [checkClosed, outside]⟩)
    rw [closed] at outside
    exact outside rfl

end Nesting

namespace Boundary

/-- The character that ends the statement. -/
def mark? : Boundary → Option Char
  | .opening => some '{'
  | .semicolon => some ';'
  | .closing => some '}'
  | .ending => none

/-- The characters up to which the statement is read. -/
def stops : Boundary → List Char
  | .opening => ['{']
  | .semicolon | .closing | .ending => [';', '}']

/-- A statement and the character that ends it: the first at the top level that
can. -/
structure Ends (statement : Text) (mark : Char) : Prop where
  boundary : isBoundary mark = true
  top : (Nesting.after {} statement).isTop mark = true
  first : Nesting.Passes isBoundary {} statement

private theorem mark?_ofChar {mark : Char} (boundary : isBoundary mark = true) :
    (ofChar? (some mark)).mark? = some mark := by
  simp only [isBoundary, Bool.or_eq_true, beq_iff_eq] at boundary
  rcases boundary with (rfl | rfl) | rfl
  · rfl
  · rfl
  · rfl

theorem stops_isBoundary {boundary : Boundary} {c : Char}
    (stop : boundary.stops.contains c = true) : isBoundary c = true := by
  cases boundary with
  | opening => simp_all [stops, isBoundary]
  | semicolon | closing | ending =>
      simp only [stops, List.contains_cons, List.contains_nil, Bool.or_false]
        at stop
      rw [isBoundary, Bool.or_assoc, stop, Bool.or_true]

private theorem stops_mark? {boundary : Boundary} {mark : Char}
    (found : boundary.mark? = some mark) :
    boundary.stops.contains mark = true := by
  cases boundary with
  | opening | semicolon | closing =>
      obtain rfl := Option.some.inj found
      decide
  | ending => simp [mark?] at found

/-- A text has a first statement, or it is one without an end. -/
theorem ofText_cases (text : Text) :
    (∃ statement mark rest, text = statement ++ mark :: rest ∧
      Ends statement mark ∧
        (ofText text).mark? = some mark) ∨
      ofText text = .ending ∧ Nesting.Passes isBoundary {} text := by
  obtain ⟨first, ends⟩ := Nesting.spanUntil_cases isBoundary {} text
  rcases ends with whole | ⟨mark, rest, same, top, boundary⟩
  · right
    rw [whole] at first
    refine ⟨?_, first⟩
    rw [ofText, whole, List.drop_length]
    rfl
  · left
    refine ⟨_, mark, rest, same, ⟨boundary, top, first⟩, ?_⟩
    have left :
        (text.drop (Nesting.spanUntil isBoundary {} text).length).head? =
          some mark := by
      conv => lhs; rw [same, List.drop_left' (by rw [← same])]
      rfl
    rw [ofText, left]
    exact mark?_ofChar boundary

variable {statement rest : Text} {boundary : Boundary} {mark : Char}

/-- A reader with the stops of a boundary reads the statement. -/
theorem Ends.spanUntil (ends : Ends statement mark)
    (found : boundary.mark? = some mark) (rest : Text) :
    Nesting.spanUntil boundary.stops.contains {} (statement ++ mark :: rest) =
      statement :=
  (ends.first.mono fun _ => stops_isBoundary).spanUntil_stop ends.top
    (stops_mark? found) rest

theorem Ends.checkClosed (ends : Ends statement mark) :
    (Nesting.after {} statement).checkClosed = .ok () :=
  (Nesting.checkClosed_of_isTop ends.top).1

end Boundary

/-- What is read is passed over, also if it cannot be returned. -/
theorem Reader.readUntil_apply (stops : List Char)
    {cursor : Cursor} {text : Text}
    (spans : Nesting.spanUntil stops.contains {} cursor.pending = text) :
    readUntil stops cursor =
      match (Nesting.after {} text).checkClosed with
      | .ok () => .ok text (cursor.advanceBy text.length)
      | .error error => .error error (cursor.advanceBy text.length) := by
  simp only [readUntil, pass, bind_apply, get_apply, modify_apply, spans]
  cases (Nesting.after {} text).checkClosed with
  | ok => rfl
  | error error => rfl

private theorem Cursor.index_advanceBy {cursor : Cursor}
    (ready : cursor.Ready) {count : Nat}
    (within : count < cursor.pending.length) :
    (cursor.advanceBy count).index = cursor.index + count := by
  induction count generalizing cursor with
  | zero => rfl
  | succ count ih =>
      have left : cursor.advance.pending = cursor.pending.drop 1 :=
        pending_advanceBy ready 1
      have shorter : count < cursor.advance.pending.length := by
        rw [left, List.length_drop]
        omega
      have standing : cursor.advance.current.isSome = true := by
        rw [current_eq_head? (ready_advance cursor), List.isSome_head?]
        exact List.ne_nil_of_length_pos (by omega)
      have counted : cursor.advance.index = cursor.index + 1 := if_pos standing
      rw [advanceBy, ih (ready_advance cursor) shorter, counted]
      omega

namespace LazyCursor

/-- Two results are the same, and their cursors are related. -/
inductive ResultsAgree {α σ : Type} (relation : LazyCursor → σ → Prop) :
    EStateM.Result Error LazyCursor α → EStateM.Result Error σ α → Prop where
  | ok (value : α) {after : LazyCursor} {moved : σ}
      (related : relation after moved) :
      ResultsAgree relation (.ok value after) (.ok value moved)
  | error (error : Error) {after : LazyCursor} {moved : σ}
      (related : relation after moved) :
      ResultsAgree relation (.error error after) (.error error moved)

variable {cursor other : LazyCursor} {plain : Cursor}

theorem Lasting.charAt (lasting : cursor.Lasting)
    (standing : cursor.current ≠ none) (count : Nat) :
    (cursor.charAt count).1 = cursor.pending[count]? ∧
      (cursor.charAt count).2.Alike cursor := by
  obtain ⟨c, current⟩ := Option.ne_none_iff_exists'.mp standing
  have whole : cursor.pending = c :: cursor.unread := by
    rw [pending_eq, current]
    rfl
  cases count with
  | zero => exact ⟨by rw [whole]; exact current, lasting, lasting, rfl⟩
  | succ count =>
      rw [whole, List.getElem?_cons_succ]
      exact lasting.peekNth count

/-- Looking finds the first boundary of the pending text, and moves nothing. -/
theorem Lasting.boundaryFrom (lasting : cursor.Lasting)
    (standing : cursor.current ≠ none) (nesting : Nesting) (count : Nat) :
    (boundaryFrom nesting count cursor).1 =
        .ofChar? ((cursor.pending.drop count).drop
          (nesting.spanUntil Boundary.isBoundary
            (cursor.pending.drop count)).length).head? ∧
      (boundaryFrom nesting count cursor).2.Alike cursor := by
  fun_induction LazyCursor.boundaryFrom nesting count cursor with
  | case1 nesting count cursor ahead found =>
      obtain ⟨answer, alike⟩ := lasting.charAt standing count
      rw [found] at answer alike
      have short := List.getElem?_eq_none_iff.mp answer.symm
      refine ⟨?_, alike⟩
      rw [List.drop_eq_nil_of_le short]
      rfl
  | case2 nesting count cursor c ahead found stops =>
      obtain ⟨answer, alike⟩ := lasting.charAt standing count
      rw [found] at answer alike
      obtain ⟨within, here⟩ := List.getElem?_eq_some_iff.mp answer.symm
      refine ⟨?_, alike⟩
      rw [List.drop_eq_getElem_cons within, here, Nesting.spanUntil,
        if_pos stops]
      rfl
  | case3 nesting count cursor c ahead found goes ih =>
      obtain ⟨answer, alike⟩ := lasting.charAt standing count
      rw [found] at answer alike
      obtain ⟨within, here⟩ := List.getElem?_eq_some_iff.mp answer.symm
      obtain ⟨later, still⟩ := ih alike.lasting (alike.current ▸ standing)
      refine ⟨?_, still.trans alike⟩
      rw [later, alike.pending, List.drop_eq_getElem_cons within, here,
        Nesting.spanUntil, if_neg goes]
      rfl

theorem Stands.current_eq_head? (stands : cursor.Stands plain)
    (ready : plain.Ready) : cursor.current = plain.pending.head? :=
  stands.current.trans (Cursor.current_eq_head? ready)

/-- Moving passes over what the cursor that is stood for reads. -/
theorem Stands.passUntil (stands : cursor.Stands plain) (ready : plain.Ready)
    (stops : List Char) (nesting : Nesting) :
    let text := nesting.spanUntil stops.contains plain.pending
    (cursor.passUntil stops nesting).1 = text ∧
      (cursor.passUntil stops nesting).2.1.checkClosed =
        (nesting.after text).checkClosed ∧
      (cursor.passUntil stops nesting).2.2.Stands
        (plain.advanceBy text.length) := by
  fun_induction LazyCursor.passUntil stops nesting cursor
    generalizing plain with
  | case1 nesting cursor ended =>
      rw [stands.current_eq_head? ready] at ended
      rw [List.head?_eq_none_iff.mp ended]
      exact ⟨rfl, rfl, stands⟩
  | case2 nesting cursor c standing stop =>
      rw [stands.current_eq_head? ready] at standing
      obtain ⟨rest, whole⟩ := List.head?_eq_some_iff.mp standing
      rw [whole, Nesting.spanUntil, if_pos stop]
      rw [Bool.and_eq_true] at stop
      obtain ⟨closed, stillClosed⟩ := Nesting.checkClosed_of_isTop stop.1
      exact ⟨rfl, stillClosed.trans closed.symm, stands⟩
  | case3 nesting cursor c standing goes text last after passed ih =>
      rw [stands.current_eq_head? ready] at standing
      obtain ⟨rest, whole⟩ := List.head?_eq_some_iff.mp standing
      have left : plain.advance.pending = rest := by
        have dropped := Cursor.pending_advanceBy ready 1
        rwa [whole] at dropped
      obtain ⟨read, closed, still⟩ :=
        ih stands.advance (Cursor.ready_advance plain)
      rw [left, passed] at read closed still
      rw [whole, Nesting.spanUntil, if_neg goes]
      exact ⟨congrArg (c :: ·) read, closed, still⟩

/-- A lazy cursor reads what the cursor that it stands for reads, and fails as
it fails. -/
theorem Stands.readUntil (stands : cursor.Stands plain) (ready : plain.Ready)
    (stops : List Char) :
    ResultsAgree Stands (LazyCursor.readUntil stops cursor)
      (Reader.readUntil stops plain) := by
  obtain ⟨read, closed, still⟩ := stands.passUntil ready stops {}
  unfold LazyCursor.readUntil
  rw [Reader.readUntil_apply stops rfl]
  rcases passed : cursor.passUntil stops {} with ⟨text, nesting, after⟩
  rw [passed] at read closed still
  dsimp only at read closed still ⊢
  rw [← read] at closed still ⊢
  rw [closed]
  cases (Nesting.after {} text).checkClosed with
  | ok => exact .ok text still
  | error error => exact .error error still

private theorem passUntil_ended (ended : cursor.current = none)
    (stops : List Char) (nesting : Nesting) :
    cursor.passUntil stops nesting = ([], nesting, cursor) := by
  rw [LazyCursor.passUntil]
  split
  · rfl
  · simp_all

private theorem passUntil_standing {c : Char}
    (standing : cursor.current = some c) (stops : List Char)
    (nesting : Nesting) :
    cursor.passUntil stops nesting =
      if nesting.isTop c && stops.contains c then
        ([], nesting.step c, cursor)
      else
        let passed := cursor.advance.passUntil stops (nesting.step c)
        (c :: passed.1, passed.2) := by
  rw [LazyCursor.passUntil]
  split
  · simp_all
  · simp_all

/-- Reading does not depend on how far was looked ahead. -/
theorem Alike.passUntil (alike : cursor.Alike other) (stops : List Char)
    (nesting : Nesting) :
    (cursor.passUntil stops nesting).1 = (other.passUntil stops nesting).1 ∧
      (cursor.passUntil stops nesting).2.1 =
        (other.passUntil stops nesting).2.1 ∧
      (cursor.passUntil stops nesting).2.2.Alike
        (other.passUntil stops nesting).2.2 := by
  fun_induction LazyCursor.passUntil stops nesting cursor
    generalizing other with
  | case1 nesting cursor ended =>
      rw [passUntil_ended (alike.current ▸ ended)]
      exact ⟨rfl, rfl, alike⟩
  | case2 nesting cursor c standing stop =>
      rw [passUntil_standing (alike.current ▸ standing), if_pos stop]
      exact ⟨rfl, rfl, alike⟩
  | case3 nesting cursor c standing goes text last after passed ih =>
      obtain ⟨read, nested, still⟩ := ih alike.advance
      rw [passed] at read nested still
      rw [passUntil_standing (alike.current ▸ standing), if_neg goes]
      exact ⟨congrArg (c :: ·) read, nested, still⟩

theorem Alike.readUntil (alike : cursor.Alike other) (stops : List Char) :
    ResultsAgree Alike (LazyCursor.readUntil stops cursor)
      (LazyCursor.readUntil stops other) := by
  obtain ⟨text, nesting, still⟩ := alike.passUntil stops {}
  unfold LazyCursor.readUntil
  dsimp only
  rw [text, nesting]
  cases (other.passUntil stops {}).2.1.checkClosed with
  | ok => exact .ok _ still
  | error error => exact .error error still

/-- A statement is found by looking, and its end is where reading it stops. -/
structure Agrees (cursor : LazyCursor) : Prop where
  pending : cursor.boundary.2.pending = cursor.pending
  index : cursor.boundary.2.index = cursor.index
  line : cursor.boundary.2.line = cursor.line
  settled : cursor.boundary.2.settled = cursor.settled
  found : cursor.boundary.1 = .ofText cursor.pending
  undisturbed : ∀ stops,
    ResultsAgree Alike (readUntil stops cursor.boundary.2)
      (readUntil stops cursor)
  reading : ∀ stops plain, cursor.Stands plain →
    ResultsAgree Stands (readUntil stops cursor.boundary.2)
      (Reader.readUntil stops plain)
  mark : ∀ mark, cursor.boundary.1.mark? = some mark → ∃ statement rest after,
    cursor.pending = statement ++ mark :: rest ∧ Boundary.Ends statement mark ∧
      readUntil cursor.boundary.1.stops cursor.boundary.2 =
        .ok statement after ∧
      after.current = some mark ∧ after.pending = mark :: rest ∧
      after.index = cursor.index + statement.length
  ending : cursor.boundary.1 = .ending →
    Nesting.Passes Boundary.isBoundary {} cursor.pending ∧
      ∃ after, after.current = none ∧ after.pending = [] ∧
        let last := Nesting.after {} cursor.pending
        (last.quoting = .outside ∧ last.interpolations = 0 ∧
            readUntil [';', '}'] cursor.boundary.2 = .ok cursor.pending after ∨
          last.quoting ≠ .outside ∧
            readUntil [';', '}'] cursor.boundary.2 =
              .error (.form .stringOpen) after ∨
          0 < last.interpolations ∧
            readUntil [';', '}'] cursor.boundary.2 =
              .error (.form .interpolationOpen) after)

variable {mark : Char}

theorem Lasting.boundary (lasting : cursor.Lasting)
    (standing : cursor.current ≠ none) :
    cursor.boundary.1 = .ofText cursor.pending ∧
      cursor.boundary.2.Alike cursor :=
  lasting.boundaryFrom standing {} 0

/-- After looking, reading is what it was before. -/
theorem Stands.readUntil_boundary (stands : cursor.Stands plain)
    (standing : cursor.current ≠ none) (stops : List Char) :
    ResultsAgree Stands (LazyCursor.readUntil stops cursor.boundary.2)
      (Reader.readUntil stops plain) := by
  have alike := (stands.lasting.boundary standing).2
  have ready : plain.Ready := fun ended =>
    absurd (stands.current.trans ended) standing
  exact (stands.of_alike alike).readUntil ready stops

/-- Reading stops on the character that looking has found. -/
theorem Lasting.read_mark (lasting : cursor.Lasting)
    (standing : cursor.current ≠ none)
    (found : cursor.boundary.1.mark? = some mark) : ∃ statement rest after,
    cursor.pending = statement ++ mark :: rest ∧ Boundary.Ends statement mark ∧
      LazyCursor.readUntil cursor.boundary.1.stops cursor.boundary.2 =
        .ok statement after ∧
      after.current = some mark ∧ after.pending = mark :: rest ∧
      after.index = cursor.index + statement.length := by
  obtain ⟨answer, -⟩ := lasting.boundary standing
  have stands := lasting.stands_view
  have ready : cursor.view.Ready := fun ended => absurd ended standing
  rcases Boundary.ofText_cases cursor.pending with
    ⟨statement, other, rest, whole, ends, shown⟩ | ⟨ending, -⟩
  · rw [← answer, found] at shown
    obtain rfl := Option.some.inj shown
    have pending := stands.pending.symm.trans whole
    have spans : Nesting.spanUntil cursor.boundary.1.stops.contains {}
        cursor.view.pending = statement := by
      rw [pending]
      exact ends.spanUntil found rest
    have read :=
      stands.readUntil_boundary standing cursor.boundary.1.stops
    rw [Reader.readUntil_apply _ spans, ends.checkClosed] at read
    generalize done : LazyCursor.readUntil cursor.boundary.1.stops
      cursor.boundary.2 = result at read
    cases read with
    | @ok _ after _ still =>
        have left : after.pending = mark :: rest := by
          rw [still.pending, Cursor.pending_advanceBy ready, pending,
            List.drop_left]
        refine ⟨statement, rest, after, whole, ends, rfl, ?_, left, ?_⟩
        · have head := still.current_eq_head?
            (Cursor.ready_advanceBy ready statement.length)
          rwa [← still.pending, left] at head
        · rw [still.index]
          exact Cursor.index_advanceBy ready (by rw [pending]; simp)
  · rw [answer, ending] at found
    simp [Boundary.mark?] at found

/-- A text without a character that ends the statement is read whole. -/
theorem Lasting.read_ending (lasting : cursor.Lasting)
    (standing : cursor.current ≠ none) (found : cursor.boundary.1 = .ending) :
    Nesting.Passes Boundary.isBoundary {} cursor.pending ∧
      ∃ after, after.current = none ∧ after.pending = [] ∧
        let last := Nesting.after {} cursor.pending
        (last.quoting = .outside ∧ last.interpolations = 0 ∧
            LazyCursor.readUntil [';', '}'] cursor.boundary.2 =
              .ok cursor.pending after ∨
          last.quoting ≠ .outside ∧
            LazyCursor.readUntil [';', '}'] cursor.boundary.2 =
              .error (.form .stringOpen) after ∨
          0 < last.interpolations ∧
            LazyCursor.readUntil [';', '}'] cursor.boundary.2 =
              .error (.form .interpolationOpen) after) := by
  obtain ⟨answer, -⟩ := lasting.boundary standing
  have stands := lasting.stands_view
  have ready : cursor.view.Ready := fun ended => absurd ended standing
  have passes : Nesting.Passes Boundary.isBoundary {} cursor.pending := by
    rcases Boundary.ofText_cases cursor.pending with
      ⟨_, _, _, -, -, shown⟩ | ⟨-, passes⟩
    · rw [← answer, found] at shown
      simp [Boundary.mark?] at shown
    · exact passes
  have spans : Nesting.spanUntil [';', '}'].contains {} cursor.view.pending =
      cursor.pending := by
    rw [← stands.pending]
    exact (passes.mono fun _ =>
      @Boundary.stops_isBoundary .ending _).spanUntil_whole
  have ended {after : LazyCursor}
      (still : after.Stands (cursor.view.advanceBy cursor.pending.length)) :
      after.current = none ∧ after.pending = [] := by
    have nothing : after.pending = [] := by
      rw [still.pending, Cursor.pending_advanceBy ready, ← stands.pending,
        List.drop_length]
    have head := still.current_eq_head?
      (Cursor.ready_advanceBy ready cursor.pending.length)
    rw [← still.pending, nothing] at head
    exact ⟨head, nothing⟩
  have read := stands.readUntil_boundary standing [';', '}']
  rw [Reader.readUntil_apply _ spans] at read
  generalize done : LazyCursor.readUntil [';', '}'] cursor.boundary.2 = result
    at read ⊢
  refine ⟨passes, ?_⟩
  rcases (Nesting.after {} cursor.pending).checkClosed_cases with
    ⟨outside, flat, closed⟩ | ⟨inside, closed⟩ | ⟨deep, closed⟩
  · rw [closed] at read
    cases read with
    | @ok _ after _ still =>
        obtain ⟨current, nothing⟩ := ended still
        exact ⟨after, current, nothing, .inl ⟨outside, flat, rfl⟩⟩
  · rw [closed] at read
    cases read with
    | @error _ after _ still =>
        obtain ⟨current, nothing⟩ := ended still
        exact ⟨after, current, nothing, .inr (.inl ⟨inside, rfl⟩)⟩
  · rw [closed] at read
    cases read with
    | @error _ after _ still =>
        obtain ⟨current, nothing⟩ := ended still
        exact ⟨after, current, nothing, .inr (.inr ⟨deep, rfl⟩)⟩

theorem Lasting.agrees (lasting : cursor.Lasting)
    (standing : cursor.current ≠ none) : cursor.Agrees := by
  obtain ⟨answer, alike⟩ := lasting.boundary standing
  constructor
  case pending => exact alike.pending
  case index => exact alike.index
  case line => exact alike.line
  case settled => exact alike.settled
  case found => exact answer
  case undisturbed => exact alike.readUntil
  case reading =>
    exact fun stops plain stands => stands.readUntil_boundary standing stops
  case mark => exact fun mark found => lasting.read_mark standing found
  case ending => exact lasting.read_ending standing

end LazyCursor

namespace Compile

variable {environment : Environment} {state : State}

/-- The brace behind the head of a block is there, since it has been looked
at. -/
theorem expect_opening {head rest : Text} {block : Block} {next : State}
    (here : state.At ('{' :: rest))
    (resolved : blockOf environment head state = .ok block next) :
    reading (Cursor.expect '{') next = .ok ⟨⟩ (next.pass 1) := by
  have kept : next.cursor = state.cursor :=
    ((resolved_blockOf environment head).of_ok resolved).cursor
  have still : next.At ('{' :: rest) := by
    constructor
    · exact kept ▸ here.ready
    · rw [kept, here.pending]
  exact reading_expect still

/-- A statement that is found to be a block fails only if its head does. -/
theorem statement_of_opening (standing : state.cursor.current ≠ none)
    (found : Boundary.ofText state.cursor.pending = .opening) :
    ∃ head rest, state.cursor.pending = head ++ '{' :: rest ∧
      Boundary.Ends head '{' ∧
      (∀ block next, blockOf environment head.trim (state.pass head.length) =
        .ok block next →
        reading (Cursor.expect '{') next = .ok ⟨⟩ (next.pass 1)) ∧
      statement environment state =
        match blockOf environment head.trim (state.pass head.length) with
        | .ok block next => openBlock block (next.pass 1)
        | .error error last => .error error last := by
  rcases Boundary.ofText_cases state.cursor.pending with
    ⟨head, mark, rest, whole, ends, shown⟩ | ⟨ending, -⟩
  · rw [found] at shown
    obtain rfl : '{' = mark := Option.some.inj shown
    have here : state.At (head ++ '{' :: rest) :=
      ⟨fun ended => absurd ended standing, whole⟩
    have spans :
        Nesting.spanUntil ['{'].contains {} (head ++ '{' :: rest) = head :=
      @Boundary.Ends.spanUntil _ .opening _ ends rfl rest
    have read := reading_readUntil here spans ends.checkClosed
    refine
      ⟨head, rest, whole, ends, fun block next => expect_opening here.pass, ?_⟩
    simp only [statement, bind_apply, get_apply, found, blockStatement, read]
    cases resolved : blockOf environment head.trim (state.pass head.length) with
    | error error last => rfl
    | ok block next =>
        dsimp only
        rw [expect_opening here.pass resolved]
  · rw [found] at ending
    contradiction

end Compile

/-- Looking for the end of the statement at a cursor changes nothing that can be
seen, and it finds the character on which reading the statement stops; without
such a character, reading goes up to the end of the text.  So a statement that
is found to be a block has its brace where it is expected. -/
theorem looking_agrees_with_reading :
    (∀ cursor : LazyCursor, cursor.Lasting → cursor.current ≠ none →
      cursor.Agrees) ∧
    ∀ (environment : Environment) (state : State), state.cursor.current ≠ none →
      Boundary.ofText state.cursor.pending = .opening →
      ∃ head rest, state.cursor.pending = head ++ '{' :: rest ∧
        Boundary.Ends head '{' ∧
        (∀ block next,
          Compile.blockOf environment head.trim (state.pass head.length) =
            .ok block next →
            Compile.reading (Cursor.expect '{') next = .ok ⟨⟩ (next.pass 1)) ∧
        Compile.statement environment state =
          match Compile.blockOf environment head.trim (state.pass head.length)
              with
          | .ok block next => Compile.openBlock block (next.pass 1)
          | .error error last => .error error last :=
  ⟨fun _ lasting standing => lasting.agrees standing,
    fun _ _ standing found => Compile.statement_of_opening standing found⟩

namespace EndSample

/-- A string, an interpolation and a quoted brace, split over three sources,
with some of the characters queued. -/
def cursor : LazyCursor where
  current := some 'a'
  top :=
    { queue := ['#'], feed := [some '{', some '\''], file := none, line := 1 }
  below := [
    { feed := [some ';', some '\'', some '}', none], file := none, line := 7 },
    { queue := ['"', '{'], feed := .ofText ['"', ' ', '{', 'x'],
      file := none, line := 1 }]
  index := 1

def head : Text :=
  ['a', '#', '{', '\'', ';', '\'', '}', '"', '{', '"', ' ']

def state : State :=
  Compilation.start {} (head ++ ['{', 'x']) none

end EndSample

open EndSample in
/-- The braces and the semicolon of the head are passed over, by looking and by
reading. -/
theorem looking_agrees_with_reading_split :
    cursor.Lasting ∧ cursor.current ≠ none ∧ cursor.boundary.1 = .opening ∧
      (∃ after, LazyCursor.readUntil ['{'] cursor.boundary.2 = .ok head after ∧
        after.current = some '{' ∧ after.pending = ['{', 'x']) ∧
      state.cursor.current ≠ none ∧
        Boundary.ofText state.cursor.pending = .opening ∧
      Compile.statement {} state =
        match Compile.blockOf {} (Text.trim head) (state.pass 11) with
        | .ok block next => Compile.openBlock block (next.pass 1)
        | .error error last => .error error last := by
  obtain ⟨agree, blocks⟩ := looking_agrees_with_reading
  have lasting : cursor.Lasting := by
    constructor
    · rfl
    · simp [cursor, LazySource.Lasting, Feed.isLasting]
    · decide
  have agrees := agree cursor lasting (by decide)
  have opening : cursor.boundary.1 = .opening := agrees.found.trans (by decide)
  -- There is only one place where a text has its first boundary.
  have unique : ∀ {statement rest : Text},
      head ++ ['{', 'x'] = statement ++ '{' :: rest →
      Boundary.Ends statement '{' → statement = head ∧ rest = ['x'] := by
    intro statement rest whole ends
    have spans := ends.first.spanUntil_stop ends.top ends.boundary rest
    rw [← whole] at spans
    obtain rfl : head = statement := (by decide : _ = head).symm.trans spans
    exact ⟨rfl, by simpa using whole.symm⟩
  refine ⟨lasting, by decide, opening, ?_, by decide, by decide, ?_⟩
  · obtain ⟨statement, rest, after, whole, ends, read, current, left, -⟩ :=
      agrees.mark '{' (by rw [opening]; rfl)
    obtain ⟨rfl, rfl⟩ := unique whole ends
    rw [opening] at read
    exact ⟨after, read, current, left⟩
  · obtain ⟨statement, rest, whole, ends, -, same⟩ :=
      blocks {} state (by decide) (by decide)
    obtain ⟨rfl, rfl⟩ := unique whole ends
    exact same

end Stylesheet
