import Stylesheet.Proofs.Alike
import Stylesheet.Proofs.Complete
import Stylesheet.Proofs.Reading

/-!
# Common text

Two cursors may stand in front of the same text with different texts behind it:
a `Fork`.  While statements end in the common text, what is behind it makes no
difference to them.  `Lockstep` compares work on two such states: both succeed
with related results, or both fail with the same error.  Only if there are more
sources on the right side may there be too many of them there and not on the
left one.
-/

namespace Stylesheet

/-- What is behind a common text on either side: the rest of the source it ends
in, and the sources below. -/
structure Fork where
  left : Text
  leftBelow : List Text
  right : Text
  rightBelow : List Text
  deeper : leftBelow.length ≤ rightBelow.length

namespace Fork

def leftText (fork : Fork) : Text :=
  fork.left ++ fork.leftBelow.flatten

def rightText (fork : Fork) : Text :=
  fork.right ++ fork.rightBelow.flatten

/-- There are too many sources on the right side, which has more of them. -/
def Overflows (fork : Fork) (error : Error) : Prop :=
  error = .endless .expansion ∧ fork.leftBelow.length < fork.rightBelow.length

end Fork

private theorem skip_common {count : Nat} {upper : List Text} {last : Text}
    (inside : count < (upper.flatten ++ last).length) :
    ∃ above final, above.flatten ++ final = (upper.flatten ++ last).drop count ∧
      ∀ tail below, skip count (upper ++ (last ++ tail) :: below) =
        above ++ (final ++ tail) :: below := by
  induction upper generalizing count with
  | nil =>
      have within : count < last.length := by simpa using inside
      refine ⟨[], last.drop count, rfl, fun tail below => ?_⟩
      have dropped :=
        @List.drop_append_of_le_length _ last tail count (Nat.le_of_lt within)
      cases below with
      | nil => rw [List.nil_append, skip, dropped, List.nil_append]
      | cons next below =>
          rw [List.nil_append, skip, if_pos (by rw [List.length_append]; omega),
            dropped, List.nil_append]
  | cons text upper ih =>
      simp only [List.flatten_cons, List.append_assoc, List.length_append]
        at inside ⊢
      by_cases within : count < text.length
      · refine ⟨text.drop count :: upper, last, ?_, fun tail below => ?_⟩
        · rw [List.drop_append_of_le_length (Nat.le_of_lt within),
            List.flatten_cons, List.append_assoc]
        · obtain ⟨next, lower, same⟩ := List.exists_cons_of_ne_nil
            (show upper ++ (last ++ tail) :: below ≠ [] by simp)
          rw [List.cons_append, List.cons_append, same, skip, if_pos within]
      · obtain ⟨above, final, split, skipped⟩ :=
          @ih (count - text.length) (by rw [List.length_append]; omega)
        refine ⟨above, final, ?_, fun tail below => ?_⟩
        · have passed : text.drop count = [] :=
            List.drop_eq_nil_of_le (by omega)
          rw [split, @List.drop_append _ text, passed, List.nil_append]
        · obtain ⟨next, lower, same⟩ := List.exists_cons_of_ne_nil
            (show upper ++ (last ++ tail) :: below ≠ [] by simp)
          rw [List.cons_append, same, skip, if_neg within, ← same, skipped]

namespace Cursor

/-- The cursors stand in the same sources in front of a text, which the fork is
behind. -/
structure Shares (fork : Fork) (text : Text)
    (cursor other : Cursor) : Prop where
  ready : cursor.Ready
  shown : other.Ready
  layers : ∃ upper last, upper.flatten ++ last = text ∧
    cursor.layers = upper ++ (last ++ fork.left) :: fork.leftBelow ∧
    other.layers = upper ++ (last ++ fork.right) :: fork.rightBelow

namespace Shares

variable {fork : Fork} {text front rest : Text} {cursor other : Cursor}

theorem pending (shares : Shares fork text cursor other) :
    cursor.pending = text ++ fork.leftText ∧
      other.pending = text ++ fork.rightText := by
  obtain ⟨upper, last, rfl, first, second⟩ := shares.layers
  constructor
  · simp [← flatten_layers, first, Fork.leftText]
  · simp [← flatten_layers, second, Fork.rightText]

theorem advanceBy (shares : Shares fork (front ++ rest) cursor other)
    (more : rest ≠ []) :
    Shares fork rest (cursor.advanceBy front.length)
      (other.advanceBy front.length) := by
  obtain ⟨upper, last, split, first, second⟩ := shares.layers
  have inside : front.length < (upper.flatten ++ last).length := by
    rw [split, List.length_append]
    have positive := List.length_pos_of_ne_nil more
    omega
  obtain ⟨above, final, joined, skipped⟩ := skip_common inside
  rw [split, List.drop_left] at joined
  refine ⟨ready_advanceBy shares.ready _, ready_advanceBy shares.shown _, above,
    final, joined, ?_, ?_⟩
  · rw [layers_advanceBy shares.ready, first, skipped]
  · rw [layers_advanceBy shares.shown, second, skipped]

theorem of_insert {after final : Cursor} {source shown : Source}
    (shares : Shares fork text cursor other) (same : source.text = shown.text)
    (nonempty : source.text ≠ []) (inserted : cursor.insert source = .ok after)
    (placed : other.insert shown = .ok final) :
    Shares fork (source.text ++ text) after final := by
  obtain ⟨upper, last, split, first, second⟩ := shares.layers
  obtain ⟨ready, layers, -⟩ := layers_insert inserted
  obtain ⟨prepared, placed, -⟩ := layers_insert placed
  refine ⟨ready, prepared, source.text :: upper, last, ?_, ?_, ?_⟩
  · rw [List.flatten_cons, List.append_assoc, split]
  · rw [layers, skip_zero_cons nonempty, first, List.cons_append]
  · rw [placed, ← same, skip_zero_cons nonempty, second, List.cons_append]

/-- A source fits on both sides or on none, unless the right side has more
sources. -/
theorem insert {source shown : Source} (shares : Shares fork text cursor other)
    (same : source.text = shown.text) (nonempty : source.text ≠ []) :
    (∃ fault, other.insert shown = .error fault ∧ fork.Overflows fault) ∨
      Agreeing (Shares fork (source.text ++ text)) (cursor.insert source)
        (other.insert shown) := by
  obtain ⟨upper, last, -, first, second⟩ := shares.layers
  have depth (cursor : Cursor) : cursor.below.length + 1 =
      cursor.layers.length := by
    simp [Cursor.layers]
  have left : cursor.below.length + 1 =
      upper.length + (fork.leftBelow.length + 1) := by
    rw [depth, first, List.length_append, List.length_cons]
  have right : other.below.length + 1 =
      upper.length + (fork.rightBelow.length + 1) := by
    rw [depth, second, List.length_append, List.length_cons]
  have deeper := fork.deeper
  by_cases full : maxSources ≤ other.below.length + 1
  · have failed : other.insert shown = .error (.endless .expansion) := by
      rw [Cursor.insert, if_pos full]
    by_cases crowded : maxSources ≤ cursor.below.length + 1
    · right
      rw [failed, Cursor.insert, if_pos crowded]
      exact rfl
    · exact .inl ⟨_, failed, rfl, by omega⟩
  · right
    have room : ¬ maxSources ≤ cursor.below.length + 1 := by omega
    obtain ⟨after, inserted⟩ : ∃ after, cursor.insert source = .ok after := by
      rw [Cursor.insert, if_neg room]
      exact ⟨_, rfl⟩
    obtain ⟨final, placed⟩ : ∃ final, other.insert shown = .ok final := by
      rw [Cursor.insert, if_neg full]
      exact ⟨_, rfl⟩
    rw [inserted, placed]
    exact shares.of_insert same nonempty inserted placed

end Shares

end Cursor

/-- States in front of a common text.  They differ in what is behind it, and in
positions, uses of mixins and the log. -/
structure Twins (fork : Fork) (text : Text) (blocks : List Block)
    (state other : State) :
    Prop where
  scopes : state.scopes = other.scopes
  sheet : state.sheet = other.sheet
  dependencies : state.dependencies = other.dependencies
  mixins : state.mixins.Alike other.mixins
  bodies : state.mixins.Bodies Complete
  others : other.blocks = blocks
  blocks : state.blocks = blocks
  cursor : Cursor.Shares fork text state.cursor other.cursor

namespace Twins

variable {fork : Fork} {text front rest : Text} {blocks : List Block}
  {state other : State}

theorem left (twins : Twins fork text blocks state other) :
    state.At (text ++ fork.leftText) :=
  ⟨twins.cursor.ready, twins.cursor.pending.1⟩

theorem right (twins : Twins fork text blocks state other) :
    other.At (text ++ fork.rightText) :=
  ⟨twins.cursor.shown, twins.cursor.pending.2⟩

theorem pass (twins : Twins fork (front ++ rest) blocks state other)
    (more : rest ≠ []) :
    Twins fork rest blocks (state.pass front.length)
      (other.pass front.length) :=
  { twins with cursor := twins.cursor.advanceBy more }

theorem current (twins : Twins fork text blocks state other)
    (more : text ≠ []) :
    state.cursor.current = text.head? ∧ other.cursor.current = text.head? := by
  obtain ⟨c, rest, rfl⟩ := List.exists_cons_of_ne_nil more
  exact ⟨twins.left.current, twins.right.current⟩

theorem isAt (twins : Twins fork text blocks state other)
    (more : text ≠ []) (c : Char) :
    state.cursor.isAt c = other.cursor.isAt c := by
  rw [Cursor.isAt, Cursor.isAt, (twins.current more).1, (twins.current more).2]

theorem sharesScopes (fork : Fork) (text : Text) (blocks : List Block) :
    SharesScopes (Twins fork text blocks) where
  scopes twins := twins.scopes
  resolved twins _ _ _ := { twins with scopes := rfl }

theorem sharesSheet (fork : Fork) (text : Text) (blocks : List Block) :
    SharesSheet (Twins fork text blocks) where
  toSharesScopes := sharesScopes fork text blocks
  sheet twins := twins.sheet
  printed twins _ := { twins with sheet := rfl }

end Twins

/-- Both succeed with what `after` says, or both fail with the same error, or
there are too many sources on the right side. -/
def Matched {α : Type} (fork : Fork) (after : α → α → State → State → Prop) :
    EStateM.Result Error State α → EStateM.Result Error State α → Prop
  | .ok value final, .ok result last => after value result final last
  | .error error _, .error fault _ => error = fault ∨ fork.Overflows fault
  | .ok _ _, .error fault _ => fork.Overflows fault
  | .error _ _, .ok _ _ => False

theorem Matched.mono {α : Type} {fork : Fork}
    {after weaker : α → α → State → State → Prop}
    {first second : EStateM.Result Error State α}
    (matched : Matched fork after first second)
    (imply : ∀ value result state other, after value result state other →
      weaker value result state other) :
    Matched fork weaker first second := by
  cases first with
  | ok value final =>
      cases second with
      | ok result last => exact imply value result final last matched
      | error fault last => exact matched
  | error error final =>
      cases second with
      | ok result last => exact matched
      | error fault last => exact matched

/-- Work on states for which `before` holds. -/
def Lockstep {α : Type} (fork : Fork) (first second : Compile α)
    (before : State → State → Prop)
    (after : α → α → State → State → Prop) : Prop :=
  ∀ state other, before state other →
    Matched fork after (first state) (second other)

namespace Lockstep

variable {α β : Type} {fork : Fork} {before : State → State → Prop}
  {after : α → α → State → State → Prop}

theorem pure {value result : α}
    (holds : ∀ state other, before state other →
      after value result state other) :
    Lockstep fork (Pure.pure value) (Pure.pure result) before after :=
  holds

theorem throw (error : Error) :
    Lockstep fork (MonadExcept.throw error) (MonadExcept.throw error)
      before after :=
  fun _ _ _ => .inl rfl

theorem bind {first second : Compile β} {next further : β → Compile α}
    {middle : β → β → State → State → Prop}
    (leading : Lockstep fork first second before middle)
    (following : ∀ value result,
      Lockstep fork (next value) (further result) (middle value result) after) :
    Lockstep fork (first >>= next) (second >>= further) before after := by
  intro state other standing
  have begun := leading state other standing
  rw [bind_apply, bind_apply]
  cases left : first state with
  | ok value final =>
      cases right : second other with
      | ok result last =>
          rw [left, right] at begun
          exact following value result final last begun
      | error fault last =>
          rw [left, right] at begun
          dsimp only
          cases next value final with
          | ok value final => exact begun
          | error error final => exact .inr begun
  | error error final =>
      cases right : second other with
      | ok result last =>
          rw [left, right] at begun
          exact begun.elim
      | error fault last =>
          rw [left, right] at begun
          exact begun

theorem of_parallel {first second : Compile α} {related : α → α → Prop}
    (parallel : Parallel before related first second)
    (holds : ∀ value result, related value result → ∀ state other,
      before state other →
      after value result state other) :
    Lockstep fork first second before after := by
  intro state other standing
  have paired := parallel state other standing
  cases left : first state with
  | ok value final =>
      cases right : second other with
      | ok result last =>
          rw [left, right] at paired
          exact holds value result paired.1 final last paired.2
      | error fault last =>
          rw [left, right] at paired
          exact paired.elim
  | error error final =>
      cases right : second other with
      | ok result last =>
          rw [left, right] at paired
          exact paired.elim
      | error fault last =>
          rw [left, right] at paired
          exact .inl paired.1

/-- After work that gives the same on both sides and leads nowhere. -/
theorem still {first second : Compile β} {next further : β → Compile α}
    (parallel : Parallel before Eq first second)
    (following : ∀ value,
      Lockstep fork (next value) (further value) before after) :
    Lockstep fork (first >>= next) (second >>= further) before after := by
  refine bind (of_parallel parallel fun value result same _ _ standing =>
    (⟨same, standing⟩ : value = result ∧ _))
      fun value result state other standing => ?_
  obtain ⟨rfl, standing⟩ := standing
  exact following value state other standing

theorem getThen {next further : State → Compile α}
    (following : ∀ seen shown, before seen shown →
      Lockstep fork (next seen) (further shown) before after) :
    Lockstep fork (get >>= next) (get >>= further) before after :=
  fun state other standing =>
    following state other standing state other standing

theorem mono {first second : Compile α} {weaker : α → α → State → State → Prop}
    (same : Lockstep fork first second before after)
    (imply : ∀ value result state other, after value result state other →
      weaker value result state other) :
    Lockstep fork first second before weaker :=
  fun state other standing => (same state other standing).mono imply

theorem guarded {condition : Prop} [Decidable condition] {fault : FormFault}
    {next further : PUnit → Compile α} (following : ¬ condition →
      Lockstep fork (next ⟨⟩) (further ⟨⟩) before after) :
    Lockstep fork (if condition then Compile.form fault >>= next else next ⟨⟩)
      (if condition then Compile.form fault >>= further else further ⟨⟩)
        before after := by
  split
  · exact fun _ _ _ => .inl rfl
  · rename_i holds
    exact following holds

theorem onlyIf {condition : Prop} [Decidable condition]
    {first second : Compile PUnit} {next further : PUnit → Compile α}
    (sometimes : Parallel before Eq first second)
    (following : Lockstep fork (next ⟨⟩) (further ⟨⟩) before after) :
    Lockstep fork (if condition then first >>= next else next ⟨⟩)
      (if condition then second >>= further else further ⟨⟩) before after := by
  split
  · exact still sometimes fun _ => following
  · exact following

theorem checkThen {result other : Except Error β} {related : β → β → Prop}
    {next further : β → Compile α} (same : Agreeing related result other)
    (following : ∀ value shown, result = .ok value → related value shown →
      Lockstep fork (next value) (further shown) before after) :
    Lockstep fork (Compile.check result >>= next)
      (Compile.check other >>= further) before
      after := by
  cases result with
  | ok value =>
      cases other with
      | ok shown => exact following value shown rfl same
      | error fault => exact same.elim
  | error error =>
      cases other with
      | ok shown => exact same.elim
      | error fault => exact fun _ _ _ => .inl same

theorem modifyThen {change shift : State → State}
    {next further : PUnit → Compile α} (middle : State → State → Prop)
    (holds : ∀ state other, before state other →
      middle (change state) (shift other))
    (following : Lockstep fork (next ⟨⟩) (further ⟨⟩) middle after) :
    Lockstep fork (modify change >>= next) (modify shift >>= further)
      before after :=
  fun state other standing =>
    following (change state) (shift other) (holds state other standing)

end Lockstep

namespace Lockstep

variable {α β : Type} {fork : Fork} {front rest text : Text}
  {blocks : List Block} {after : α → α → State → State → Prop}

/-- A reader that passes over the front of the text, whatever follows the
rest. -/
theorem passing {action : Compile α} {value : α} (split : text = front ++ rest)
    (more : rest ≠ []) (reads : ∀ (state : State) (following : Text),
      state.At (front ++ (rest ++ following)) →
      action state = .ok value (state.pass front.length)) :
    Lockstep fork action action (Twins fork text blocks)
      fun found shown state other => found = value ∧ shown = value ∧
        Twins fork rest blocks state other := by
  intro state other twins
  subst text
  have left := twins.left
  have right := twins.right
  rw [List.append_assoc] at left right
  rw [reads state _ left, reads other _ right]
  exact ⟨rfl, rfl, twins.pass more⟩

/-- A reader that passes over the front of the text, and what follows. -/
theorem passThen {action : Compile β} {value : β} {next further : β → Compile α}
    (split : text = front ++ rest) (more : rest ≠ [])
    (reads : ∀ (state : State) (following : Text),
      state.At (front ++ (rest ++ following)) →
      action state = .ok value (state.pass front.length))
    (following : Lockstep fork (next value) (further value)
      (Twins fork rest blocks) after) :
    Lockstep fork (action >>= next) (action >>= further)
      (Twins fork text blocks) after := by
  refine (passing split more reads).bind
    fun found shown state other standing => ?_
  obtain ⟨rfl, rfl, twins⟩ := standing
  exact following state other twins

/-- A reader that fails on the text, whatever follows. -/
theorem failThen {action : Compile β} {next further : β → Compile α}
    {error : Error} (fails : ∀ (state : State) (following : Text),
      state.At (text ++ following) →
      action state = .error error state) :
    Lockstep fork (action >>= next) (action >>= further)
      (Twins fork text blocks) after := by
  intro state other twins
  rw [bind_apply, bind_apply, fails state _ twins.left,
    fails other _ twins.right]
  exact .inl rfl

end Lockstep

theorem head_append {kind : Char → Bool} {front rest : Text} {stop : Char}
    (stops : ∀ c, front.head? = some c → kind c = false)
    (last : kind stop = false) :
    ∀ c, (front ++ stop :: rest).head? = some c → kind c = false := by
  cases front with
  | nil => simpa using last
  | cons c front => simpa using stops

/-- What is left of a text after a statement that ends at `stop`. -/
def afterStop (stop : Char) (rest : Text) : Text :=
  if stop == ';' then rest else stop :: rest

theorem Nesting.plain_of_chunk {nesting : Nesting} {stop : Char} {text : Text}
    (chunk : nesting.chunk stop text = true) : isNameChar stop = false ∧
      isSpace stop = false := by
  have boundary := (chunk_top chunk).2
  simp only [Boundary.isBoundary, Bool.or_eq_true, beq_iff_eq] at boundary
  rcases boundary with (rfl | rfl) | rfl
  all_goals decide

namespace Lockstep

open Compile

variable {α : Type} {fork : Fork} {front rest : Text} {stop : Char}
  {blocks : List Block} {after : α → α → State → State → Prop}

theorem readName {next further : Text → Compile α}
    (chunk : Nesting.chunk {} stop front = true)
    (following : ∀ name tail, front = name ++ tail →
      (∀ c ∈ name, isNameChar c = true) →
      (∀ c, tail.head? = some c → isNameChar c = false) →
      Nesting.chunk {} stop tail = true →
      Lockstep fork (next name) (further name)
        (Twins fork (tail ++ stop :: rest) blocks) after) :
    Lockstep fork (reading Reader.readName >>= next)
      (reading Reader.readName >>= further)
      (Twins fork (front ++ stop :: rest) blocks) after := by
  obtain ⟨name, tail, rfl, nameChars, stops⟩ := split_while isNameChar front
  have later :=
    Nesting.chunk_drop
      (fun c member => idle_of_isNameChar (nameChars c member)) chunk
  have plain := (Nesting.plain_of_chunk chunk).1
  refine passThen (List.append_assoc name tail _) (by simp)
    (fun state others here => ?_)
    (following name tail rfl nameChars stops later)
  rw [List.append_assoc, List.cons_append] at here
  exact reading_readName here nameChars (head_append stops plain)

theorem skipGap {gap : Text} {next further : Unit → Compile α}
    (more : rest ≠ []) (spaces : ∀ c ∈ gap, isSpace c = true)
    (stops : ∀ c, rest.head? = some c → isSpace c = false)
    (following : Lockstep fork (next ⟨⟩) (further ⟨⟩)
      (Twins fork rest blocks) after) :
    Lockstep fork (reading Reader.skipSpace >>= next)
      (reading Reader.skipSpace >>= further)
      (Twins fork (gap ++ rest) blocks) after := by
  refine passThen rfl more
    (fun state others here => reading_skipSpace here spaces ?_) following
  obtain ⟨c, rest, rfl⟩ := List.exists_cons_of_ne_nil more
  exact stops

theorem skipSpace {next further : Unit → Compile α}
    (chunk : Nesting.chunk {} stop front = true)
    (following : ∀ gap tail, front = gap ++ tail →
      (∀ c, tail.head? = some c → isSpace c = false) →
        Nesting.chunk {} stop tail = true →
      Lockstep fork (next ⟨⟩) (further ⟨⟩)
        (Twins fork (tail ++ stop :: rest) blocks) after) :
    Lockstep fork (reading Reader.skipSpace >>= next)
      (reading Reader.skipSpace >>= further)
      (Twins fork (front ++ stop :: rest) blocks) after := by
  obtain ⟨gap, tail, rfl, spaces, stops⟩ := split_while isSpace front
  have later :=
    Nesting.chunk_drop (fun c member => idle_of_isSpace (spaces c member)) chunk
  have plain := (Nesting.plain_of_chunk chunk).2
  rw [List.append_assoc]
  exact skipGap (by simp) spaces (head_append stops plain)
    (following gap tail rfl stops later)

theorem readUntil {stops : List Char} {next further : Text → Compile α}
    (chunk : Nesting.chunk {} stop front = true)
    (boundaries : ∀ c, stops.contains c = true → Boundary.isBoundary c = true)
    (last : stops.contains stop = true)
    (following : Lockstep fork (next front) (further front)
      (Twins fork (stop :: rest) blocks) after) :
    Lockstep fork (reading (Reader.readUntil stops) >>= next)
      (reading (Reader.readUntil stops) >>= further)
      (Twins fork (front ++ stop :: rest) blocks) after := by
  refine passThen rfl (by simp) (fun state others here => ?_) following
  exact reading_readUntil here
    (Nesting.chunk_spans chunk boundaries last (rest ++ others))
    (Nesting.chunk_closed chunk)

theorem advance {text : Text} {c : Char} {next further : Unit → Compile α}
    (more : text ≠ []) (following : Lockstep fork (next ⟨⟩) (further ⟨⟩)
      (Twins fork text blocks) after) :
    Lockstep fork (reading (modify Cursor.advance) >>= next)
      (reading (modify Cursor.advance) >>= further)
        (Twins fork (c :: text) blocks) after := by
  have split : c :: text = [c] ++ text := rfl
  exact passThen split more (fun _ _ _ => reading_advance) following

theorem expect {text : Text} {c : Char} {next further : Unit → Compile α}
    (nonempty : text ≠ []) (following : ∀ tail, text = c :: tail →
      tail ≠ [] ∧
        Lockstep fork (next ⟨⟩) (further ⟨⟩) (Twins fork tail blocks) after) :
    Lockstep fork (reading (Cursor.expect c) >>= next)
      (reading (Cursor.expect c) >>= further)
      (Twins fork text blocks) after := by
  obtain ⟨d, tail, rfl⟩ := List.exists_cons_of_ne_nil nonempty
  by_cases same : d = c
  · subst d
    obtain ⟨more, following⟩ := following tail rfl
    have split : c :: tail = [c] ++ tail := rfl
    exact passThen split more (fun _ _ here => reading_expect here) following
  · refine @failThen _ _ _ _ _ _ _ _ _ (.form (.charExpected c (some d)))
      fun state others here => ?_
    have other : state.cursor.isAt c = false :=
      here.not_isAt (by simpa using same)
    have current : state.cursor.current = some d := here.current
    simp [reading, Cursor.expect, other, current]

theorem readGroup {opening closing : Char} {contents tail : Text}
    {next further : Text → Compile α} (more : tail ≠ []) (group : ∀ following,
      spanGroup opening closing 0 .outside (contents ++ closing :: following) =
      some contents)
    (following : Lockstep fork (next contents) (further contents)
      (Twins fork tail blocks) after) :
    Lockstep fork (reading (Reader.readGroup opening closing) >>= next)
      (reading (Reader.readGroup opening closing) >>= further)
      (Twins fork (opening :: (contents ++ closing :: tail)) blocks) after := by
  have split : opening :: (contents ++ closing :: tail) =
      (opening :: contents ++ [closing]) ++ tail := by simp
  refine passThen split more (fun state others here => ?_) following
  have whole :
      state.At (opening :: (contents ++ closing :: (tail ++ others))) := by
    simpa using here
  rw [reading_readGroup whole (group _)]
  congr 2
  simp [Nat.add_comm]

/-- A word that is looked for, if the text is long enough to tell. -/
theorem skipWord {word text : Text} {next further : Bool → Compile α}
    (nonempty : text ≠ [])
    (settled : ∀ following, word <+: text ++ following → ∃ c tail,
      text = word ++ c :: tail)
    (found : ∀ tail, text = word ++ tail →
      (∀ c, tail.head? = some c → isNameChar c = false) →
      Lockstep fork (next true) (further true) (Twins fork tail blocks) after)
    (missing : Lockstep fork (next false) (further false)
      (Twins fork text blocks) after) :
    Lockstep fork (reading (Reader.skipWord? word) >>= next)
      (reading (Reader.skipWord? word) >>= further)
        (Twins fork text blocks) after := by
  have none : text = [] ++ text := rfl
  by_cases present : word <+: text
  · obtain ⟨c, others, rfl⟩ := settled [] (by rwa [List.append_nil])
    by_cases longer : isNameChar c = true
    · refine passThen none nonempty (fun state following here => ?_) missing
      rw [List.nil_append, List.append_assoc] at here
      exact reading_longerWord here longer
    · have stops : ∀ d, (c :: others).head? = some d →
          isNameChar d = false := by
        simpa using longer
      refine passThen rfl (by simp) (fun state following here => ?_)
        (found _ rfl stops)
      exact reading_skipWord here stops
  · refine passThen none nonempty (fun state following here => ?_) missing
    refine reading_noWord here fun longer => present ?_
    obtain ⟨c, tail, rfl⟩ := settled following longer
    exact ⟨c :: tail, rfl⟩

end Lockstep

/-- A text that holds a character which is not in a word is long enough to tell
whether it starts with the word. -/
theorem settled_of_mem {word text : Text} {stop : Char} (inside : stop ∉ word)
    (present : stop ∈ text) (following : Text)
    (found : word <+: text ++ following) :
    ∃ c tail, text = word ++ c :: tail := by
  obtain ⟨others, same⟩ := found
  rcases List.append_eq_append_iff.mp same with ⟨tail, rfl, -⟩ | ⟨tail, rfl, -⟩
  · obtain ⟨c, tail, rfl⟩ := List.exists_cons_of_ne_nil
      (List.ne_nil_of_mem (show stop ∈ tail by simpa [inside] using present))
    exact ⟨c, tail, rfl⟩
  · exact absurd (List.mem_append_left _ present) inside

namespace Compile

variable {fork : Fork} {environment : Environment}
  {front rest text : Text} {stop : Char} {blocks : List Block}

theorem boundary_of_end (c : Char) (stops : [';', '}'].contains c = true) :
    Boundary.isBoundary c = true := by
  have either : c = ';' ∨ c = '}' := by simpa using stops
  rcases either with rfl | rfl
  · rfl
  · rfl

theorem boundary_of_opening (c : Char) (stops : ['{'].contains c = true) :
    Boundary.isBoundary c = true := by
  have same : c = '{' := by simpa using stops
  subst c
  rfl

theorem twins_record (event happening : Event) :
    Parallel (Twins fork text blocks) Eq (record event) (record happening) :=
  parallel_record (Twins.sharesScopes fork text blocks) event happening

theorem twins_interpolate (value : Text) :
    Steady (Twins fork text blocks) (interpolate environment value) :=
  steady_interpolate (Twins.sharesScopes fork text blocks) environment value

theorem twins_resolveValue (value : Text) :
    Steady (Twins fork text blocks) (resolveValue environment value) :=
  steady_resolveValue (Twins.sharesScopes fork text blocks) environment value

theorem twins_blockOf (head : Text) :
    Steady (Twins fork text blocks) (blockOf environment head) := by
  refine .getThen fun seen shown twins => ?_
  rw [twins.blocks, twins.others]
  dsimp only
  split
  · split
    · exact steady_form _
    · exact (twins_interpolate _).after fun _ => .pure rfl
  · exact (twins_interpolate _).after fun _ =>
      (steady_check _).after fun _ => (steady_check _).after fun _ => .pure rfl

theorem twins_comment (message : Text) :
    Steady (Twins fork text blocks) (comment environment message) :=
  steady_comment (Twins.sharesSheet fork text blocks) environment message

/-- The semicolon after a statement. -/
theorem lockstep_skipChar (ends : stop = ';' ∧ rest ≠ [] ∨ stop = '}') :
    Lockstep fork (reading (Reader.skipChar ';'))
      (reading (Reader.skipChar ';'))
      (Twins fork (stop :: rest) blocks) fun _ _ =>
        Twins fork (afterStop stop rest) blocks := by
  rcases ends with ⟨rfl, more⟩ | rfl
  · have split : ';' :: rest = [';'] ++ rest := rfl
    refine (Lockstep.passing split more
      fun state others here => reading_skipChar here).mono ?_
    exact fun _ _ _ _ standing => standing.2.2
  · have split : '}' :: rest = [] ++ '}' :: rest := rfl
    refine (@Lockstep.passing _ _ _ _ _ _ _ ⟨⟩ split (by simp)
      fun state others here => ?_).mono ?_
    · have other : state.cursor.isAt ';' = false := here.not_isAt (by simp)
      simp [reading, Reader.skipChar, other]
    · exact fun _ _ _ _ standing => standing.2.2

theorem lockstep_variableStatement
    (chunk : Nesting.chunk {} stop ('$' :: front) = true)
    (ends : stop = ';' ∧ rest ≠ [] ∨ stop = '}') :
    Lockstep fork (variableStatement environment)
      (variableStatement environment)
      (Twins fork ('$' :: (front ++ stop :: rest)) blocks)
      fun _ _ => Twins fork (afterStop stop rest) blocks := by
  refine Lockstep.advance (by simp) ?_
  refine Lockstep.readName (Nesting.chunk_idle (by decide) chunk)
    fun name afterName _ _ _ chunk => Lockstep.guarded fun _ => ?_
  refine Lockstep.skipSpace chunk fun gap afterGap _ _ chunk => ?_
  refine Lockstep.expect (by simp) fun tail split => ?_
  cases afterGap with
  | nil =>
      cases split
      exact absurd (Nesting.chunk_top chunk).2 (by decide)
  | cons c value =>
      cases split
      refine ⟨by simp,
        Lockstep.readUntil (Nesting.chunk_idle (by decide) chunk) ?_ ?_ ?_⟩
      · exact boundary_of_end
      · rcases ends with ⟨rfl, -⟩ | rfl
        · rfl
        · rfl
      · refine Lockstep.still (twins_resolveValue _) fun value =>
          Lockstep.getThen fun seen shown twins => ?_
        rw [twins.scopes]
        refine Lockstep.modifyThen (Twins fork (stop :: rest) blocks)
          (fun _ _ twins => { twins with scopes := rfl }) ?_
        exact Lockstep.onlyIf (twins_record _ _) (lockstep_skipChar ends)

/-- The text of a declaration stands for the same property on both sides. -/
theorem lockstep_declare {before : State → State → Prop}
    {after : Unit → Unit → State → State → Prop} (shares : SharesSheet before)
    (sameBlocks : ∀ state other, before state other →
      state.blocks = other.blocks) (raw : Text)
    (ending : Lockstep fork (reading (Reader.skipChar ';'))
      (reading (Reader.skipChar ';')) before after) :
    Lockstep fork (declare environment raw) (declare environment raw)
      before after := by
  have sharesScopes := shares.toSharesScopes
  refine Lockstep.getThen fun seen shown standing => ?_
  rw [sameBlocks seen shown standing]
  cases shown.blocks with
  | nil => exact Lockstep.throw _
  | cons block _ =>
      dsimp only
      cases splitDeclaration? raw with
      | none => exact Lockstep.throw _
      | some parts =>
          refine Lockstep.still (steady_interpolate sharesScopes environment _)
            fun name =>
            Lockstep.guarded fun _ => ?_
          refine Lockstep.still (steady_resolveValue sharesScopes environment _)
            fun value =>
            Lockstep.guarded fun _ => ?_
          exact Lockstep.still (steady_addProperty shares _ _ _) fun _ => ending

theorem lockstep_declaration (chunk : Nesting.chunk {} stop front = true)
    (ends : stop = ';' ∧ rest ≠ [] ∨ stop = '}') :
    Lockstep fork (declaration environment) (declaration environment)
      (Twins fork (front ++ stop :: rest) blocks)
      fun _ _ => Twins fork (afterStop stop rest) blocks := by
  rw [declaration_eq]
  refine Lockstep.readUntil chunk boundary_of_end ?_ ?_
  · rcases ends with ⟨rfl, -⟩ | rfl
    · rfl
    · rfl
  · exact lockstep_declare (Twins.sharesSheet ..)
      (fun _ _ twins => twins.blocks.trans twins.others.symm) front
        (lockstep_skipChar ends)

theorem lockstep_blockStatement (chunk : Nesting.chunk {} '{' front = true)
    (more : rest ≠ []) :
    Lockstep fork (blockStatement environment) (blockStatement environment)
      (Twins fork (front ++ '{' :: rest) blocks)
      fun _ _ state other => ∃ block,
        Twins fork rest (block :: blocks) state other := by
  refine Lockstep.readUntil chunk boundary_of_opening rfl ?_
  refine Lockstep.still (twins_blockOf _) fun block =>
    Lockstep.expect (by simp) fun tail split => ?_
  cases split
  refine ⟨more, fun state other twins => ⟨block, ?_⟩⟩
  exact { twins with
    scopes := congrArg Scopes.push twins.scopes
    blocks := congrArg (block :: ·) twins.blocks
    others := congrArg (block :: ·) twins.others }

theorem ofText_chunk (chunk : Nesting.chunk {} stop front = true)
    (following : Text) :
    Boundary.ofText (front ++ stop :: following) =
      Boundary.ofChar? (some stop) := by
  have spans :=
    Nesting.chunk_spans chunk (fun _ => id)
      (Nesting.chunk_top chunk).2 following
  unfold Boundary.ofText
  rw [spans]
  dsimp only
  rw [List.drop_left]
  rfl

/-- What ends a statement tells its kind, whatever is behind it. -/
theorem ofText_twins (chunk : Nesting.chunk {} stop front = true)
    {state other : State}
    (twins : Twins fork (front ++ stop :: rest) blocks state other) :
    Boundary.ofText state.cursor.pending = Boundary.ofChar? (some stop) ∧
      Boundary.ofText other.cursor.pending = Boundary.ofChar? (some stop) := by
  rw [twins.left.pending, twins.right.pending, List.append_assoc,
    List.append_assoc, List.cons_append, List.cons_append, ofText_chunk chunk,
    ofText_chunk chunk]
  exact ⟨rfl, rfl⟩

theorem lockstep_statement (chunk : Nesting.chunk {} stop front = true)
    (ends : stop = ';' ∧ rest ≠ [] ∨ stop = '}') :
    Lockstep fork (statement environment) (statement environment)
      (Twins fork (front ++ stop :: rest) blocks)
      fun _ _ => Twins fork (afterStop stop rest) blocks := by
  refine Lockstep.getThen fun seen shown twins => ?_
  obtain ⟨left, right⟩ := ofText_twins chunk twins
  rw [left, right]
  rcases ends with ⟨rfl, more⟩ | rfl
  · exact lockstep_declaration chunk (.inl ⟨rfl, more⟩)
  · exact lockstep_declaration chunk (.inr rfl)

theorem lockstep_statement_block (chunk : Nesting.chunk {} '{' front = true)
    (more : rest ≠ []) :
    Lockstep fork (statement environment) (statement environment)
      (Twins fork (front ++ '{' :: rest) blocks)
      fun _ _ state other => ∃ block,
        Twins fork rest (block :: blocks) state other := by
  refine Lockstep.getThen fun seen shown twins => ?_
  obtain ⟨left, right⟩ := ofText_twins chunk twins
  rw [left, right]
  exact lockstep_blockStatement chunk more

theorem lockstep_splice {source shown : Source}
    (same : source.text = shown.text) (nonempty : source.text ≠ []) :
    Lockstep fork (splice source) (splice shown) (Twins fork text blocks)
      fun _ _ => Twins fork (source.text ++ text) blocks := by
  refine Lockstep.getThen fun seen other twins => ?_
  rcases twins.cursor.insert same nonempty with ⟨fault, failed, overflows⟩
    | agreeing
  · rw [failed]
    cases seen.cursor.insert source with
    | ok cursor => exact fun _ _ _ => overflows
    | error error => exact fun _ _ _ => .inr overflows
  · refine Lockstep.checkThen agreeing
      fun cursor placed _ shares state other twins => ?_
    exact { twins with cursor := shares }

/-- In front of the rest of a statement. -/
def InStatement (fork : Fork) (stop : Char) (rest : Text) (blocks : List Block)
    (state other : State) : Prop :=
  ∃ front, Nesting.chunk {} stop front = true ∧
    Twins fork (front ++ stop :: rest) blocks state other

theorem lockstep_mixinName {α : Type} {next further : Text → Compile α}
    {after : α → α → State → State → Prop}
    (following : ∀ name, Lockstep fork (next name) (further name)
      (InStatement fork stop rest blocks) after) :
    Lockstep fork (mixinName >>= next) (mixinName >>= further)
      (InStatement fork stop rest blocks) after := by
  refine Lockstep.bind
    (?_ : Lockstep fork mixinName mixinName _ fun name shown state other =>
    name = shown ∧ InStatement fork stop rest blocks state other)
    fun name shown state other standing => ?_
  · rintro state other ⟨front, chunk, twins⟩
    refine (Lockstep.readName chunk fun name afterName _ _ _ chunk =>
      Lockstep.guarded fun _ =>
      Lockstep.skipSpace chunk fun gap afterGap _ _ chunk =>
        ?_) state other twins
    exact Lockstep.pure fun state other twins => ⟨rfl, afterGap, chunk, twins⟩
  · obtain ⟨rfl, standing⟩ := standing
    exact following name state other standing

theorem lockstep_parentheses {α : Type} {next further : Text → Compile α}
    {after : α → α → State → State → Prop}
    (chunk : Nesting.chunk {} stop ('(' :: front) = true)
    (following : ∀ list tail, Nesting.chunk {} stop tail = true →
      Lockstep fork (next list) (further list)
        (Twins fork (tail ++ stop :: rest) blocks) after) :
    Lockstep fork (reading (Reader.readGroup '(' ')') >>= next)
      (reading (Reader.readGroup '(' ')') >>= further)
      (Twins fork ('(' :: (front ++ stop :: rest)) blocks) after := by
  obtain ⟨list, tail, rfl, chunk, group⟩ :=
    @Nesting.chunk_group (Nesting.step {} '(') stop 0 front rfl rfl
      (Nesting.chunk_cons chunk).2.2
  rw [List.append_assoc, List.cons_append]
  exact Lockstep.readGroup (by simp) group (following list tail chunk)

theorem lockstep_argumentList? {α : Type}
    {next further : Option Text → Compile α}
    {after : α → α → State → State → Prop}
    (following : ∀ list, Lockstep fork (next list) (further list)
      (InStatement fork stop rest blocks) after) :
    Lockstep fork (argumentList? >>= next) (argumentList? >>= further)
      (InStatement fork stop rest blocks) after := by
  refine Lockstep.bind (?_ : Lockstep fork argumentList? argumentList? _
    fun list shown state other =>
      list = shown ∧ InStatement fork stop rest blocks state other)
    fun list shown state other standing => ?_
  · rintro state other ⟨front, chunk, twins⟩
    refine (Lockstep.getThen fun seen shown twins => ?_) state other twins
    rw [twins.isAt (by simp)]
    split
    · rename_i standsAt
      obtain ⟨others, pending⟩ :=
        Cursor.pending_of_isAt twins.right.ready standsAt
      rw [twins.right.pending] at pending
      cases front with
      | nil =>
          cases pending
          exact absurd (Nesting.chunk_top chunk).2 (by decide)
      | cons c front =>
          cases pending
          refine lockstep_parentheses chunk fun list tail chunk =>
            Lockstep.skipSpace chunk fun gap afterGap _ _ chunk => ?_
          exact Lockstep.pure fun state other twins =>
            ⟨rfl, afterGap, chunk, twins⟩
    · exact Lockstep.pure fun state other twins => ⟨rfl, front, chunk, twins⟩
  · obtain ⟨rfl, standing⟩ := standing
    exact following list state other standing

/-- An inclusion ends with its statement, or fails. -/
theorem lockstep_endInclude (name : Text) (more : stop = ';' → rest ≠ []) :
    Lockstep fork (endInclude name) (endInclude name)
      (InStatement fork stop rest blocks) fun _ _ state other => stop ≠ '{' ∧
        Twins fork (afterStop stop rest) blocks state other := by
  rintro state other ⟨front, chunk, twins⟩
  have boundary := (Nesting.chunk_top chunk).2
  refine (Lockstep.getThen fun seen shown twins => ?_) state other twins
  rw [(twins.current (by simp)).1, (twins.current (by simp)).2]
  cases front with
  | nil =>
      simp only [Boundary.isBoundary, Bool.or_eq_true, beq_iff_eq] at boundary
      rcases boundary with (rfl | rfl) | rfl
      · exact Lockstep.throw _
      · have split : ';' :: rest = [';'] ++ rest := rfl
        refine (Lockstep.passing split (more rfl)
          fun _ _ _ => reading_advance).mono ?_
        exact fun _ _ _ _ standing => ⟨by decide, standing.2.2⟩
      · exact Lockstep.pure fun _ _ twins => ⟨by decide, twins⟩
  | cons c front =>
      have inside := (Nesting.chunk_cons chunk).1
      have semicolon : c ≠ ';' := by
        rintro rfl
        exact absurd inside (by decide)
      have closing : c ≠ '}' := by
        rintro rfl
        exact absurd inside (by decide)
      rw [List.cons_append, List.head?_cons]
      split
      · rename_i same
        exact absurd (Option.some.inj same) semicolon
      · rename_i same
        exact absurd (Option.some.inj same) closing
      · rename_i same
        simp at same
      · exact Lockstep.throw _

/-- In front of the body of a mixin, in a block of its own. -/
def InBody (fork : Fork) (text : Text) (blocks : List Block)
    (state other : State) : Prop :=
  ∃ block body, Complete body ∧
    Twins fork (body ++ ['}'] ++ text) (block :: blocks) state other

theorem lockstep_expansion (name : Text) (list : Option Text) (block : Block) :
    Lockstep fork (expansion environment name list)
      (expansion environment name list)
      (Twins fork text (block :: blocks)) fun _ _ =>
        InBody fork text blocks := by
  have shares := Twins.sharesScopes fork text (block :: blocks)
  refine Lockstep.still (steady_resolveArguments shares environment list)
    fun arguments => ?_
  refine Lockstep.still (twins_record _ _) fun _ =>
    Lockstep.still (twins_comment _) fun _ => ?_
  refine Lockstep.getThen fun seen shown twins => ?_
  rw [twins.scopes]
  refine Lockstep.checkThen (twins.mixins.expanded ..)
    fun (spliced, after, bound) result expanded
    ⟨same, mixins, scopes⟩ => ?_
  obtain ⟨mixin, found, whole, -, -⟩ := Mixins.expanded_ok expanded
  have bodies := twins.bodies.expanded expanded
  refine Lockstep.modifyThen (Twins fork _ (block :: blocks))
    (fun _ _ twins => { twins with mixins, scopes, bodies }) ?_
  refine Lockstep.still (twins_record _ _) fun _ => ?_
  refine (lockstep_splice same (by simp [whole])).mono
    fun _ _ state other standing => ?_
  refine ⟨block, mixin.body, twins.bodies mixin (Mixins.mem_of_get? found), ?_⟩
  rw [← whole]
  exact standing

/-- An inclusion puts the body of a mixin in front of what follows it. -/
theorem lockstep_includeDirective (more : stop = ';' → rest ≠ []) :
    Lockstep fork (includeDirective environment) (includeDirective environment)
      (InStatement fork stop rest blocks) fun _ _ state other => stop ≠ '{' ∧
        InBody fork (afterStop stop rest) blocks state other := by
  rw [includeDirective_eq]
  refine lockstep_mixinName fun name => lockstep_argumentList? fun list =>
    (lockstep_endInclude name more).bind fun _ _ state other ⟨free, twins⟩ => ?_
  refine (Lockstep.getThen fun seen shown twins => ?_) state other twins
  rw [twins.blocks, twins.others]
  refine Lockstep.modifyThen
    (Twins fork (afterStop stop rest) (blocks.headD {} :: blocks))
    (fun _ _ twins => { twins with
      scopes := congrArg Scopes.push twins.scopes
      blocks := congrArg (_ :: ·) twins.blocks
      others := congrArg (_ :: ·) twins.others }) ?_
  exact (lockstep_expansion name list _).mono fun _ _ _ _ inBody =>
    ⟨free, inBody⟩

end Compile

end Stylesheet
