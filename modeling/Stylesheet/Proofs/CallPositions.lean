import Mathlib.Data.List.DropRight
import Stylesheet.Proofs.ResolvedCalls

/-!
# Calls and where they end

A call is known by the position of its opening parenthesis.  The parenthesis
that closes it is the first one behind it at which no more parentheses are open
than in front of the call.  The parentheses between the two come in pairs, so a
call in the arguments of another one ends there.
-/

namespace Stylesheet

/-- The number of parentheses that are open in front of a position. -/
def depthAt (text : Text) (position : Nat) : Int :=
  netParens .outside (text.take position)

/-- The name that ends in front of a position. -/
def nameBefore (text : Text) (position : Nat) : Text :=
  (text.take position).rtakeWhile isNameChar

/-- A parenthesis outside of strings, right behind a name with a letter in
it. -/
structure CallAt (text : Text) (opening : Nat) : Prop where
  opens : text[opening]? = some '('
  outside : Shut (text.take opening)
  lettered : (nameBefore text opening).any Char.isAlpha = true

/-- The parenthesis at `closing` closes the one at `opening`. -/
structure Matches (text : Text) (opening closing : Nat) : Prop where
  later : opening < closing
  closes : text[closing]? = some ')'
  even : depthAt text (closing + 1) = depthAt text opening
  deeper : ∀ position, opening < position → position ≤ closing →
    depthAt text opening < depthAt text position

/-- A position between the parentheses of a call. -/
def Within (text : Text) (opening position : Nat) : Prop :=
  ∃ closing, Matches text opening closing ∧ opening < position ∧
    position < closing

instance (text : Text) (opening : Nat) : Decidable (CallAt text opening) :=
  decidable_of_iff (text[opening]? = some '(' ∧
      Quoting.outside.after (text.take opening) = .outside ∧
      (nameBefore text opening).any Char.isAlpha = true)
    ⟨fun ⟨opens, outside, lettered⟩ => ⟨opens, outside, lettered⟩,
      fun call => ⟨call.opens, call.outside, call.lettered⟩⟩

instance (text : Text) (opening closing : Nat) :
    Decidable (Matches text opening closing) :=
  decidable_of_iff (opening < closing ∧ text[closing]? = some ')' ∧
      depthAt text (closing + 1) = depthAt text opening ∧
      ∀ position < closing + 1, opening < position →
        depthAt text opening < depthAt text position)
    ⟨fun ⟨later, closes, even, deeper⟩ => ⟨later, closes, even,
        fun position after before =>
          deeper position (Nat.lt_succ_of_le before) after⟩,
      fun ends => ⟨ends.later, ends.closes, ends.even,
        fun position before after =>
          ends.deeper position after (Nat.le_of_lt_succ before)⟩⟩

variable {text front inner rest back : Text} {opening closing position : Nat}

theorem depthAt_append (front rest : Text) (count : Nat) :
    depthAt (front ++ rest) (front.length + count) =
      netParens .outside front + netParens (Quoting.outside.after front)
        (rest.take count) := by
  rw [depthAt, List.take_length_add_append, netParens_append]

theorem depthAt_length (front rest : Text) :
    depthAt (front ++ rest) front.length = netParens .outside front := by
  have whole := depthAt_append front rest 0
  simpa using whole

theorem depthAt_opening (shut : Shut front) (rest : Text) (count : Nat) :
    depthAt (front ++ '(' :: rest) (front.length + 1 + count) =
      netParens .outside front + 1 + netParens .outside (rest.take count) := by
  have step : Quoting.outside.step '(' = .outside := rfl
  have weight : parenWeight .outside '(' = 1 := rfl
  rw [Nat.add_assoc, depthAt_append, shut, Nat.add_comm 1, List.take_succ_cons,
    netParens_cons, step, weight]
  omega

theorem getElem?_behind (front : Text) (c : Char) (rest : Text) (count : Nat) :
    (front ++ c :: rest)[front.length + 1 + count]? = rest[count]? := by
  rw [Nat.add_assoc, List.getElem?_append_right (Nat.le_add_right ..),
    Nat.add_sub_cancel_left, Nat.add_comm 1, List.getElem?_cons_succ]

theorem Matches.unique {other : Nat} (first : Matches text opening closing)
    (second : Matches text opening other) : closing = other := by
  rcases Nat.lt_trichotomy closing other with less | same | less
  · have higher :=
      second.deeper (closing + 1) (Nat.lt_succ_of_lt first.later) less
    rw [first.even] at higher
    omega
  · exact same
  · have higher :=
      first.deeper (other + 1) (Nat.lt_succ_of_lt second.later) less
    rw [second.even] at higher
    omega

theorem Within.lt (within : Within text opening position)
    (ends : Matches text opening closing) :
    position < closing := by
  obtain ⟨other, found, -, before⟩ := within
  rwa [ends.unique found]

/-- What the parentheses of a call enclose is enclosed. -/
theorem matches_of_enclosed (shut : Shut front) (enclosed : Enclosed inner)
    (back : Text) :
    Matches (front ++ '(' :: (inner ++ ')' :: back)) front.length
      (front.length + 1 + inner.length) := by
  have starts := depthAt_length front ('(' :: (inner ++ ')' :: back))
  refine ⟨by omega, ?_, ?_, ?_⟩
  · rw [getElem?_behind]
    simp
  · have closed : (inner ++ ')' :: back).take (inner.length + 1) =
        inner ++ [')'] := by
      simp [List.take_append]
    have weight : parenWeight .outside ')' = -1 := rfl
    rw [Nat.add_assoc, depthAt_opening shut, closed, netParens_append,
      enclosed.net, enclosed.shut, netParens_cons, weight,
      netParens_nil, starts]
    omega
  · intro position after before
    obtain ⟨count, rfl⟩ := Nat.exists_eq_add_of_le (Nat.succ_le_of_lt after)
    have part : (inner ++ ')' :: back).take count = inner.take count :=
      List.take_append_of_le_length (by omega)
    have covered :=
      enclosed.covered (inner.take count) (List.take_prefix count inner)
    rw [depthAt_opening shut, part, starts]
    omega

/-- A call that is closed encloses its arguments. -/
theorem Matches.enclosed (shut : Shut front)
    (ends : Matches (front ++ '(' :: rest) front.length closing) :
    ∃ inner back, rest = inner ++ ')' :: back ∧ Enclosed inner ∧
      closing = front.length + 1 + inner.length := by
  obtain ⟨count, rfl⟩ := Nat.exists_eq_add_of_le (Nat.succ_le_of_lt ends.later)
  have closes := ends.closes
  rw [getElem?_behind] at closes
  obtain ⟨bound, found⟩ := List.getElem?_eq_some_iff.mp closes
  have split : rest = rest.take count ++ ')' :: rest.drop (count + 1) := by
    rw [← found, List.getElem_cons_drop, List.take_append_drop]
  have starts := depthAt_length front ('(' :: rest)
  have covered : Covered 0 .outside (rest.take count) := by
    intro part within
    rw [List.prefix_iff_eq_take.mp within]
    have short : part.length ≤ count := by
      have bounded := within.length_le
      rw [List.length_take] at bounded
      omega
    have deeper :=
      ends.deeper (front.length + 1 + part.length) (by omega) (by omega)
    rw [starts, depthAt_opening shut] at deeper
    rw [List.take_take, Nat.min_eq_left short]
    omega
  have even := ends.even
  have last : rest.take (count + 1) = rest.take count ++ [')'] := by
    rw [List.take_add_one, closes]
    rfl
  rw [Nat.add_assoc, depthAt_opening shut, last, netParens_append,
    netParens_cons, netParens_nil, starts] at even
  have positive := covered _ (List.prefix_refl _)
  have outside : Quoting.outside.after (rest.take count) = .outside := by
    by_contra inside
    have weight :
        parenWeight (Quoting.outside.after (rest.take count)) ')' = 0 := by
      unfold parenWeight
      rw [if_neg]
      intro outside
      exact inside (Quoting.eq_outside outside)
    rw [weight] at even
    omega
  have weight : parenWeight .outside ')' = -1 := rfl
  rw [outside, weight] at even
  refine ⟨rest.take count, rest.drop (count + 1), split,
    ⟨outside, by omega, covered⟩, ?_⟩
  rw [List.length_take, Nat.min_eq_left (Nat.le_of_lt bound)]

/-- Where more is closed than opened, the end of the call is found. -/
theorem spanCall_isSome {depth : Nat} {quoting : Quoting} {text : Text}
    (closes : depth + netParens quoting text < 0) :
    ∃ inner after, spanCall depth quoting text = some (inner, after) := by
  induction text generalizing depth quoting with
  | nil =>
      rw [netParens_nil] at closes
      omega
  | cons c rest ih =>
      by_cases inside : 0 ≤ (depth : Int) + parenWeight quoting c
      · rw [netParens_cons] at closes
        have moved := Int.toNat_of_nonneg inside
        have remains : (((depth : Int) + parenWeight quoting c).toNat : Int) +
            netParens (quoting.step c) rest < 0 := by omega
        obtain ⟨inner, after, found⟩ := ih remains
        refine ⟨c :: inner, after, ?_⟩
        rw [spanCall_cons rest inside, found]
        rfl
      · obtain ⟨rfl, rfl, rfl⟩ := closing_of_weight inside
        exact ⟨[], rest, rfl⟩

/-- What is opened between the parentheses of a call is closed there. -/
theorem Enclosed.closes {before after : Text}
    (enclosed : Enclosed (before ++ '(' :: after)) (shut : Shut before) :
    ∃ inner rest, after = inner ++ ')' :: rest ∧ Enclosed inner := by
  have net := enclosed.net
  have step : Quoting.outside.step '(' = .outside := rfl
  have weight : parenWeight .outside '(' = 1 := rfl
  rw [netParens_append, shut, netParens_cons, step, weight] at net
  have positive := enclosed.covered before (List.prefix_append _ _)
  have negative : ((0 : Nat) : Int) + netParens .outside after < 0 := by
    rw [Int.natCast_zero]
    omega
  obtain ⟨inner, rest, found⟩ := spanCall_isSome negative
  exact ⟨inner, rest, spanCall_eq_some_enclosed.mp found⟩

/-- A call between the parentheses of another one ends there. -/
theorem matches_nested (shut : Shut front) (enclosed : Enclosed inner)
    (whole : text = front ++ '(' :: (inner ++ ')' :: back))
    (inside : front.length < position)
    (before : position < front.length + 1 + inner.length)
    (call : CallAt text position) :
    ∃ closing, Matches text position closing ∧
      closing < front.length + 1 + inner.length := by
  obtain ⟨count, rfl⟩ := Nat.exists_eq_add_of_le (Nat.succ_le_of_lt inside)
  have bound : count < inner.length := by omega
  have split : ∃ first second, inner = first ++ '(' :: second ∧
      first.length = count := by
    have opens := call.opens
    rw [whole, getElem?_behind, List.getElem?_append_left bound] at opens
    obtain ⟨_, found⟩ := List.getElem?_eq_some_iff.mp opens
    refine ⟨inner.take count, inner.drop (count + 1), ?_, ?_⟩
    · rw [← found, List.getElem_cons_drop, List.take_append_drop]
    · rw [List.length_take, Nat.min_eq_left (Nat.le_of_lt bound)]
  obtain ⟨first, second, rfl, rfl⟩ := split
  have ahead : Shut (front ++ ['(']) := shut.append (shut_singleton (by decide))
  have length : (front ++ ['('] ++ first).length =
      front.length + 1 + first.length := by
    rw [List.length_append, List.length_append, List.length_singleton]
  have outside : Shut (front ++ ['('] ++ first) := by
    have shape :
        text = (front ++ ['('] ++ first) ++ '(' :: (second ++ ')' :: back) := by
      simp [whole]
    have start := call.outside
    rwa [shape, List.take_left' length] at start
  obtain ⟨arguments, rest, rfl, closed⟩ := enclosed.closes (outside.tail ahead)
  refine ⟨front.length + 1 + first.length + 1 + arguments.length, ?_, ?_⟩
  · have ends := matches_of_enclosed outside closed (rest ++ ')' :: back)
    have shape : front ++ ['('] ++ first ++ '(' ::
        (arguments ++ ')' :: (rest ++ ')' :: back)) =
        text := by
      simp [whole]
    rwa [shape, length] at ends
  · simp only [List.length_append, List.length_cons]
    omega

end Stylesheet
