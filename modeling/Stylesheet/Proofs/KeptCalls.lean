import Stylesheet.Proofs.CallPositions

/-!
# Kept calls

A text in which no builtin function is called keeps all its calls as they are.
Resolving it fails exactly if some call is not closed; otherwise the text comes
back unchanged, and the calls of unknown functions are reported, except for
those in addresses.  A call is reported behind the calls in its arguments, and
calls side by side from left to right.
-/

namespace Stylesheet

open Functions

/-- A position in the parentheses of a `url()` that opens at `low` or later. -/
def InAddress (text : Text) (low position : Nat) : Prop :=
  ∃ opening, low ≤ opening ∧ CallAt text opening ∧
    Text.sameLetters (nameBefore text opening) "url".toList = true ∧
      Within text opening position

/-- A call of a function that is not native, from `low` up to `high`, that
stands in no address from there on. -/
structure Unknown (text : Text) (low high position : Nat) : Prop where
  after : low ≤ position
  before : position < high
  call : CallAt text position
  foreign : isNative (nameBefore text position) = false
  exposed : ¬ InAddress text low position

/-- The call at `first` is reported before the one at `second`: it stands in the
arguments of the other, or else to the left of it. -/
def Precedes (text : Text) (first second : Nat) : Prop :=
  Within text second first ∨ first < second ∧ ¬ Within text first second

/-- The positions of the unknown calls from `low` up to `high`, in the order in
which they are reported. -/
structure Listing (text : Text) (low high : Nat)
    (positions : List Nat) : Prop where
  members : ∀ position, position ∈ positions ↔ Unknown text low high position
  ordered : positions.Pairwise (Precedes text)

/-- The names that are reported for calls at these positions. -/
def Functions.namesAt (functions : Functions) (text : Text)
    (positions : List Nat) : List Text :=
  if functions.unknown.report then positions.map (nameBefore text) else []

/-- No builtin function is called, not even in a string or an address. -/
def BuiltinFree (text : Text) : Prop :=
  ∀ (function : Builtin) (front back : Text),
    text = front ++ function.name ++ '(' :: back →
    ∃ c, front.getLast? = some c ∧ isNameChar c = true

variable {functions : Functions} {text front inner out rest back : Text}
  {quoting : Quoting} {low high position closing : Nat}

private theorem listing_nil (text : Text) (low : Nat) :
    Listing text low low [] := by
  refine ⟨?_, List.Pairwise.nil⟩
  intro position
  constructor
  · intro member
    contradiction
  · intro unknown
    have after := unknown.after
    have before := unknown.before
    omega

/-- A position without a call adds nothing. -/
theorem Listing.skip {positions : List Nat}
    (listing : Listing text (low + 1) high positions)
    (plain : ¬ CallAt text low) : Listing text low high positions := by
  refine ⟨?_, listing.ordered⟩
  intro position
  rw [listing.members]
  constructor
  · intro unknown
    refine ⟨by have := unknown.after; omega, unknown.before, unknown.call,
      unknown.foreign, ?_⟩
    rintro ⟨opening, after, call, address, within⟩
    apply unknown.exposed
    refine ⟨opening, ?_, call, address, within⟩
    have other : low ≠ opening := by
      rintro rfl
      exact plain call
    omega
  · intro unknown
    have other : low ≠ position := by
      rintro rfl
      exact plain unknown.call
    have after := unknown.after
    refine ⟨by omega, unknown.before, unknown.call, unknown.foreign, ?_⟩
    rintro ⟨opening, later, found⟩
    exact unknown.exposed ⟨opening, by omega, found⟩

/-- A call with its closing parenthesis; the calls in its arguments are closed
there. -/
structure ClosedCall (text : Text) (low closing : Nat) : Prop where
  call : CallAt text low
  ends : Matches text low closing
  nested : ∀ position, low < position → position < closing →
    CallAt text position →
    ∃ other, Matches text position other ∧ other < closing

theorem ClosedCall.not_callAt (closed : ClosedCall text low closing) :
    ¬ CallAt text closing := by
  intro call
  have opens := call.opens
  rw [closed.ends.closes] at opens
  contradiction

/-- No call up to the closing parenthesis reaches behind it. -/
theorem ClosedCall.within_lt (closed : ClosedCall text low closing)
    {opening : Nat} (after : low ≤ opening) (before : opening ≤ closing)
    (call : CallAt text opening) (within : Within text opening position) :
    position < closing := by
  rcases Nat.eq_or_lt_of_le after with rfl | later
  · exact within.lt closed.ends
  · rcases Nat.eq_or_lt_of_le before with rfl | earlier
    · exact absurd call closed.not_callAt
    · obtain ⟨other, ends, less⟩ := closed.nested opening later earlier call
      exact Nat.lt_trans (within.lt ends) less

/-- Behind a call, its address and those in it do not matter. -/
theorem ClosedCall.unknown_behind (closed : ClosedCall text low closing) :
    Unknown text (closing + 1) high position ↔
      closing < position ∧ Unknown text low high position := by
  have start := closed.ends.later
  constructor
  · intro unknown
    have after := unknown.after
    refine ⟨after, by omega, unknown.before, unknown.call, unknown.foreign, ?_⟩
    rintro ⟨opening, later, call, address, within⟩
    rcases Nat.lt_or_ge closing opening with behind | front
    · exact unknown.exposed ⟨opening, behind, call, address, within⟩
    · have inside := closed.within_lt later front call within
      omega
  · rintro ⟨behind, unknown⟩
    refine ⟨behind, unknown.before, unknown.call, unknown.foreign, ?_⟩
    rintro ⟨opening, later, found⟩
    exact unknown.exposed ⟨opening, by omega, found⟩

/-- In the arguments of a call that is no address, only the addresses there
matter. -/
theorem unknown_arguments
    (transparent : Text.sameLetters (nameBefore text low) "url".toList = false)
    (reaches : closing < high) :
    Unknown text (low + 1) closing position ↔
      low < position ∧ position < closing ∧ Unknown text low high position := by
  constructor
  · intro unknown
    have after := unknown.after
    have before := unknown.before
    refine
      ⟨after, before, by omega, by omega, unknown.call, unknown.foreign, ?_⟩
    rintro ⟨opening, later, call, address, within⟩
    have other : low ≠ opening := by
      rintro rfl
      rw [transparent] at address
      contradiction
    exact unknown.exposed ⟨opening, by omega, call, address, within⟩
  · rintro ⟨after, before, unknown⟩
    refine ⟨after, before, unknown.call, unknown.foreign, ?_⟩
    rintro ⟨opening, later, found⟩
    exact unknown.exposed ⟨opening, by omega, found⟩

private theorem ClosedCall.unknown_self (closed : ClosedCall text low closing)
    (reaches : closing < high) :
    Unknown text low high low ↔ isNative (nameBefore text low) = false := by
  have start := closed.ends.later
  constructor
  · intro unknown
    exact unknown.foreign
  · intro foreign
    refine ⟨Nat.le_refl low, by omega, closed.call, foreign, ?_⟩
    rintro ⟨opening, after, -, -, -, -, before, -⟩
    omega

private theorem isNative_of_address {name : Text}
    (address : Text.sameLetters name "url".toList = true) :
    isNative name = true := by
  rw [isNative, List.any_eq_true]
  refine ⟨"url", by decide, ?_⟩
  rw [Text.sameLetters, beq_iff_eq] at address
  rw [address]
  decide

/-- Nothing is reported in an address. -/
theorem Listing.address {positions : List Nat}
    (closed : ClosedCall text low closing)
    (address : Text.sameLetters (nameBefore text low) "url".toList = true)
    (listing : Listing text (closing + 1) high positions) :
    Listing text low high positions := by
  refine ⟨?_, listing.ordered⟩
  intro position
  rw [listing.members, closed.unknown_behind]
  constructor
  · exact And.right
  · intro unknown
    refine ⟨?_, unknown⟩
    by_contra front
    rcases Nat.eq_or_lt_of_le unknown.after with rfl | later
    · have foreign := unknown.foreign
      rw [isNative_of_address address] at foreign
      contradiction
    · have inside : position < closing := by
        have other : position ≠ closing := by
          rintro rfl
          exact closed.not_callAt unknown.call
        omega
      exact unknown.exposed
        ⟨low, Nat.le_refl low, closed.call, address, closing, closed.ends,
        later, inside⟩

/-- The call itself, if it is reported. -/
def selfListed (text : Text) (low : Nat) : List Nat :=
  if isNative (nameBefore text low) then [] else [low]

theorem mem_selfListed : position ∈ selfListed text low ↔
    position = low ∧ isNative (nameBefore text low) = false := by
  unfold selfListed
  cases isNative (nameBefore text low) with
  | true => simp
  | false => simp

/-- The arguments of a call are reported before it, and what stands behind it
after it. -/
theorem Listing.call {arguments others : List Nat}
    (closed : ClosedCall text low closing)
    (transparent : Text.sameLetters (nameBefore text low) "url".toList = false)
    (reaches : closing < high)
    (first : Listing text (low + 1) closing arguments)
    (second : Listing text (closing + 1) high others) :
    Listing text low high (arguments ++ (selfListed text low ++ others)) := by
  have start := closed.ends.later
  have inArguments {position : Nat} (member : position ∈ arguments) :
      low < position ∧ position < closing ∧ Unknown text low high position :=
    (unknown_arguments transparent reaches).mp
      ((first.members position).mp member)
  have isBehind {position : Nat} (member : position ∈ others) :
      closing < position ∧ Unknown text low high position :=
    closed.unknown_behind.mp ((second.members position).mp member)
  constructor
  · intro position
    rw [List.mem_append, List.mem_append, mem_selfListed]
    constructor
    · rintro (member | ⟨rfl, foreign⟩ | member)
      · exact (inArguments member).2.2
      · exact (closed.unknown_self reaches).mpr foreign
      · exact (isBehind member).2
    · intro unknown
      rcases Nat.eq_or_lt_of_le unknown.after with rfl | later
      · exact .inr (.inl ⟨rfl, unknown.foreign⟩)
      · have other : position ≠ closing := by
          rintro rfl
          exact closed.not_callAt unknown.call
        rcases Nat.lt_or_ge position closing with inside | behind
        · left
          rw [first.members]
          exact (unknown_arguments transparent reaches).mpr
            ⟨later, inside, unknown⟩
        · right
          right
          rw [second.members]
          exact closed.unknown_behind.mpr ⟨by omega, unknown⟩
  · have separate {position : Nat} (after : low ≤ position)
        (before : position ≤ closing)
        (call : CallAt text position) : ∀ later ∈ others,
          Precedes text position later := by
      intro later member
      have behind := (isBehind member).1
      refine .inr ⟨by omega, fun within => ?_⟩
      have inside := closed.within_lt after before call within
      omega
    rw [List.pairwise_append, List.pairwise_append]
    refine ⟨first.ordered, ⟨?_, second.ordered, ?_⟩, ?_⟩
    · unfold selfListed
      split
      · exact List.Pairwise.nil
      · exact List.pairwise_singleton _ _
    · intro position self
      obtain ⟨rfl, -⟩ := mem_selfListed.mp self
      exact separate (Nat.le_refl position) (Nat.le_of_lt start) closed.call
    · intro position argument later member
      obtain ⟨after, before, unknown⟩ := inArguments argument
      rcases List.mem_append.mp member with self | other
      · obtain ⟨rfl, -⟩ := mem_selfListed.mp self
        exact .inl ⟨closing, closed.ends, after, before⟩
      · exact separate (Nat.le_of_lt after) (Nat.le_of_lt before)
          unknown.call later other

/-- The calls of the part `text` of a whole text are resolved behind the output
`out`: the part stands behind `front`, and the name at the end of the output is
the one at the end of `front`. -/
structure Reads (whole : Text) (quoting : Quoting)
    (out front text back : Text) : Prop where
  split : whole = front ++ (text ++ back)
  quoted : Quoting.outside.after front = quoting
  named : nameAfter out = nameAfter front.reverse

namespace Reads

variable {whole after : Text} {c : Char}

theorem nameBefore_eq (reads : Reads whole quoting out front text back) :
    nameBefore whole front.length = nameAfter out := by
  rw [nameBefore, reads.split, List.take_left, reads.named]
  rfl

/-- A call starts at the first character exactly if it is read as one. -/
theorem callAt_iff (reads : Reads whole quoting out front (c :: rest) back) :
    CallAt whole front.length ↔ startsCall quoting out c = true := by
  have character : whole[front.length]? = some c := by
    rw [reads.split, List.getElem?_append_right (Nat.le_refl _)]
    simp
  have start : whole.take front.length = front := by
    rw [reads.split, List.take_left]
  have letters : (nameBefore whole front.length).any Char.isAlpha =
      (out.takeWhile isNameChar).any Char.isAlpha := by
    rw [reads.nameBefore_eq, nameAfter, List.any_reverse]
  rw [startsCall, Bool.and_eq_true, Bool.and_eq_true, beq_iff_eq, ← letters]
  constructor
  · rintro ⟨opens, outside, lettered⟩
    rw [character] at opens
    rw [start, Shut, reads.quoted] at outside
    exact ⟨⟨by rw [outside]; rfl, Option.some.inj opens⟩, lettered⟩
  · rintro ⟨⟨outside, rfl⟩, lettered⟩
    refine ⟨character, ?_, lettered⟩
    rw [start, Shut, reads.quoted]
    exact Quoting.eq_outside outside

theorem char (reads : Reads whole quoting out front (c :: rest) back) :
    Reads whole (quoting.step c) (c :: out) (front ++ [c]) rest back := by
  refine ⟨?_, ?_, ?_⟩
  · rw [reads.split]
    simp
  · rw [Quoting.after_append, reads.quoted]
    rfl
  · have named := congrArg List.reverse reads.named
    simp only [nameAfter, List.reverse_reverse] at named
    rw [List.reverse_append, List.reverse_singleton, List.singleton_append,
      nameAfter, nameAfter, List.takeWhile_cons, List.takeWhile_cons, named]

/-- The arguments of a call are read for themselves; no name goes on over a
parenthesis. -/
theorem arguments
    (reads :
      Reads whole .outside out front ('(' :: (inner ++ ')' :: after)) back) :
    Reads whole .outside [] (front ++ ['(']) inner
      (')' :: (after ++ back)) := by
  refine ⟨?_, reads.char.quoted, ?_⟩
  · rw [reads.split]
    simp
  · rw [List.reverse_append, List.reverse_singleton, List.singleton_append]
    rfl

/-- Behind a kept call, the call is part of the output. -/
theorem behind
    (reads :
      Reads whole .outside out front ('(' :: (inner ++ ')' :: after)) back)
    (enclosed : Enclosed inner) :
    Reads whole .outside (')' :: (inner.reverse ++ '(' :: out))
      (front ++ '(' :: (inner ++ [')'])) after back := by
  refine ⟨?_, ?_, ?_⟩
  · rw [reads.split]
    simp
  · rw [Quoting.after_append, reads.quoted]
    exact enclosed.group.shut
  · have shape : (front ++ '(' :: (inner ++ [')'])).reverse =
        ')' :: (inner.reverse ++ '(' :: front.reverse) := by simp
    rw [shape]
    rfl

/-- A call that is closed in the text that is read is closed with all calls in
its arguments. -/
theorem closedCall
    (reads :
      Reads whole .outside out front ('(' :: (inner ++ ')' :: after)) back)
    (call : CallAt whole front.length) (enclosed : Enclosed inner) :
    ClosedCall whole front.length (front.length + 1 + inner.length) := by
  have shape : whole = front ++ '(' :: (inner ++ ')' :: (after ++ back)) := by
    rw [reads.split]
    simp
  refine ⟨call, ?_, ?_⟩
  · rw [shape]
    exact matches_of_enclosed reads.quoted enclosed _
  · intro position later before other
    exact matches_nested reads.quoted enclosed shape later before other

/-- A call that is closed in the text that is read is found to be. -/
theorem spanCall_of_matches
    (reads : Reads whole .outside out front ('(' :: rest) back)
    (ends : Matches whole front.length closing)
    (reached : closing < front.length + ('(' :: rest).length) :
    ∃ inner after, spanCall 0 .outside rest = some (inner, after) := by
  rw [reads.split, List.cons_append] at ends
  obtain ⟨inner, tail, shape, enclosed, rfl⟩ := ends.enclosed reads.quoted
  have short : inner.length < rest.length := by
    rw [List.length_cons] at reached
    omega
  have split : rest = inner ++ ')' :: rest.drop (inner.length + 1) := by
    have start := congrArg (List.take (inner.length + 1)) shape
    have first : (inner ++ ')' :: tail).take (inner.length + 1) =
        inner ++ [')'] := by
      simp [List.take_append]
    rw [List.take_append_of_le_length short, first] at start
    have cut := List.take_append_drop (inner.length + 1) rest
    rw [start, List.append_assoc] at cut
    exact cut.symm
  exact ⟨inner, _, spanCall_eq_some_enclosed.mpr ⟨split, enclosed⟩⟩

end Reads

private theorem Builtin.mem_all (function : Builtin) :
    function ∈ Builtin.all := by
  cases function <;> decide

private theorem builtinFree_iff : BuiltinFree text ↔
    ∀ function ∈ Builtin.all, ∀ count < text.length + 1,
      function.name ++ ['('] <+: text.drop count →
        (text.take count).getLast?.any isNameChar = true := by
  constructor
  · rintro free function - count short ⟨back, split⟩
    have whole : text = text.take count ++ function.name ++ '(' :: back := by
      rw [List.append_assoc, List.append_cons function.name, split,
        List.take_append_drop]
    obtain ⟨c, last, named⟩ := free function _ _ whole
    rw [last]
    exact named
  · rintro free function front back rfl
    have within : front.length <
        (front ++ function.name ++ '(' :: back).length + 1 := by
      simp only [List.length_append]
      omega
    have named := free function function.mem_all front.length within (by simp)
    simpa [Option.any_eq_true] using named

instance (text : Text) : Decidable (BuiltinFree text) :=
  decidable_of_iff _ builtinFree_iff.symm

theorem BuiltinFree.ofName? (free : BuiltinFree text)
    (call : CallAt text position) :
    Builtin.ofName? (nameBefore text position) = none := by
  rw [Option.eq_none_iff_forall_not_mem]
  intro function found
  have named : function.name = nameBefore text position := by
    simpa using List.find?_some found
  obtain ⟨bound, opens⟩ := List.getElem?_eq_some_iff.mp call.opens
  have start : text.take position =
      ((text.take position).reverse.drop
        (nameBefore text position).length).reverse ++
        nameBefore text position := by
    have split := reverse_eq_nameAfter (text.take position).reverse
    rwa [List.reverse_reverse] at split
  have whole : text = ((text.take position).reverse.drop
      (nameBefore text position).length).reverse ++ function.name ++
        '(' :: text.drop (position + 1) := by
    rw [named, ← start, ← opens, List.getElem_cons_drop, List.take_append_drop]
  obtain ⟨c, last, member⟩ := free function _ _ whole
  rw [List.getLast?_reverse] at last
  have ends := head_dropName (text.take position).reverse c last
  rw [member] at ends
  contradiction

/-- Every call from `low` up to `high` is closed in front of `high`. -/
def AllClosed (text : Text) (low high : Nat) : Prop :=
  ∀ opening, low ≤ opening → opening < high → CallAt text opening →
    ∃ closing, Matches text opening closing ∧ closing < high

/-- What comes of the calls from `low` up to `high`: either all of them are
closed and kept, or one of them is not. -/
inductive CallOutcome (functions : Functions) (text : Text) (low high : Nat)
    (shown : Text) :
    Except Error Resolved → Prop where
  | kept {positions : List Nat} (closed : AllClosed text low high)
      (listing : Listing text low high positions) :
      CallOutcome functions text low high shown
        (.ok { value := shown, unknown := functions.namesAt text positions })
  | lost {opening : Nat} {rest : Text} (after : low ≤ opening)
      (before : opening < high) (call : CallAt text opening)
      (unclosed : ∀ closing, Matches text opening closing → high ≤ closing) :
      CallOutcome functions text low high shown
        (.error (.form (.callOpen rest)))

variable {shown : Text} {result : Except Error Resolved}

theorem CallOutcome.skip
    (outcome : CallOutcome functions text (low + 1) high shown result)
    (plain : ¬ CallAt text low) :
    CallOutcome functions text low high shown result := by
  cases outcome with
  | kept closed listing =>
      refine .kept ?_ (listing.skip plain)
      intro opening after before call
      refine closed opening ?_ before call
      have other : low ≠ opening := by
        rintro rfl
        exact plain call
      omega
  | lost after before call unclosed =>
      exact .lost (by omega) before call unclosed

private theorem ClosedCall.allClosed (closed : ClosedCall text low closing)
    (reaches : closing < high) (behind : AllClosed text (closing + 1) high) :
    AllClosed text low high := by
  intro opening after before call
  rcases Nat.eq_or_lt_of_le after with rfl | later
  · exact ⟨closing, closed.ends, reaches⟩
  · have other : opening ≠ closing := by
      rintro rfl
      exact closed.not_callAt call
    rcases Nat.lt_or_ge opening closing with inside | outside
    · obtain ⟨other, ends, less⟩ := closed.nested opening later inside call
      exact ⟨other, ends, by omega⟩
    · exact behind opening (by omega) before call

/-- The outcome behind a closed call is the outcome from the call on, with what
is reported for the call in front. -/
theorem CallOutcome.call {unknown : List Text}
    (outcome : CallOutcome functions text (closing + 1) high shown result)
    (closed : ClosedCall text low closing) (reaches : closing < high)
    (extended : ∀ {others}, Listing text (closing + 1) high others →
      ∃ positions, Listing text low high positions ∧
        functions.namesAt text positions =
          unknown ++ functions.namesAt text others) :
    CallOutcome functions text low high shown
      (result.map fun following =>
        { following with unknown := unknown ++ following.unknown }) := by
  cases outcome with
  | kept behind listing =>
      obtain ⟨positions, whole, names⟩ := extended listing
      have kept : CallOutcome functions text low high shown
          (.ok
            { value := shown, unknown := functions.namesAt text positions }) :=
        .kept (closed.allClosed reaches behind) whole
      rwa [names] at kept
  | lost after before call unclosed =>
      have start := closed.ends.later
      exact .lost (by omega) before call unclosed

theorem Functions.namesAt_append (functions : Functions) (text : Text)
    (first second : List Nat) :
    functions.namesAt text (first ++ second) =
      functions.namesAt text first ++ functions.namesAt text second := by
  unfold namesAt
  split
  · exact List.map_append
  · rfl

/-- A call is reported behind what is reported for its arguments. -/
theorem Functions.reported_namesAt (functions : Functions)
    (text : Text) (low : Nat) (arguments : List Nat) :
    functions.reported (nameBefore text low)
      (functions.namesAt text arguments) =
      functions.namesAt text (arguments ++ selfListed text low) := by
  rw [reported, namesAt_append, selfListed, namesAt]
  cases isNative (nameBefore text low) with
  | true => simp [namesAt]
  | false =>
      cases report : functions.unknown.report with
      | true => simp [namesAt, report]
      | false => simp [namesAt, report]

namespace Functions

/-- A closed call is kept, with what is reported for it. -/
theorem Keeping.call_closed (keeping : functions.Keeping)
    (free : BuiltinFree text) (closed : ClosedCall text low closing)
    (reaches : closing < high)
    (arguments : CallOutcome functions text (low + 1) closing inner
      (functions.resolve inner)) :
    ∃ unknown, functions.call (nameBefore text low) inner =
        .ok { value := kept (nameBefore text low) inner, unknown } ∧
      ∀ {others}, Listing text (closing + 1) high others →
        ∃ positions, Listing text low high positions ∧
          functions.namesAt text positions =
            unknown ++ functions.namesAt text others := by
  cases transparent : Text.sameLetters (nameBefore text low) "url".toList with
  | true =>
      refine ⟨[], ?_, ?_⟩
      · rw [call, if_pos transparent]
      · intro others behind
        exact ⟨others, behind.address closed transparent, rfl⟩
  | false =>
      generalize found : functions.resolve inner = result at arguments
      cases arguments with
      | @kept positions inside listing =>
          refine
            ⟨functions.namesAt text (positions ++ selfListed text low), ?_, ?_⟩
          · rw [keeping.call_kept (free.ofName? closed.call) transparent found,
              reported_namesAt]
          · intro others behind
            refine ⟨_, listing.call closed transparent reaches behind, ?_⟩
            rw [← List.append_assoc, namesAt_append]
      | lost after before call unclosed =>
          -- What is enclosed is closed.
          obtain ⟨other, ends, less⟩ := closed.nested _ after before call
          have behind := unclosed other ends
          omega

/-- What comes of a part that stands behind `front`, from `low` up to `high`. -/
theorem Keeping.outcome_resolveAfter (keeping : functions.Keeping)
    {whole : Text} (free : BuiltinFree whole) (quoting : Quoting)
    (out text : Text) {front back : Text} {low high : Nat}
    (reads : Reads whole quoting out front text back)
    (starting : front.length = low) (ending : low + text.length = high) :
    CallOutcome functions whole low high (out.reverse ++ text)
      (functions.resolveAfter quoting out text) := by
  induction quoting, out, text using resolving_induction
    generalizing front back low high with
  | nil quoting out =>
      obtain rfl : low = high := by simpa using ending
      rw [resolveAfter_nil, List.append_nil]
      have kept : CallOutcome functions whole low low out.reverse
          (.ok { value := out.reverse,
                 unknown := functions.namesAt whole [] }) := by
        refine .kept ?_ (listing_nil whole low)
        intro opening after before
        omega
      have none : functions.namesAt whole [] = [] := by simp [namesAt]
      rwa [none] at kept
  | char quoting out c rest plain ih =>
      have absent : ¬ CallAt whole low := by
        rw [← starting, reads.callAt_iff, plain]
        exact Bool.false_ne_true
      rw [List.length_cons] at ending
      have later : CallOutcome functions whole (low + 1) high
          ((c :: out).reverse ++ rest)
          (functions.resolveAfter (quoting.step c) (c :: out) rest) := by
        apply ih reads.char
        · simp [starting]
        · omega
      rw [List.reverse_cons, List.append_assoc] at later
      rw [resolveAfter_char _ plain]
      exact later.skip absent
  | lost quoting out c rest starts unclosed =>
      obtain ⟨rfl, rfl⟩ := startsCall_spec starts
      obtain rfl := starting
      obtain rfl := ending
      rw [resolveAfter_open _ starts unclosed]
      refine .lost (Nat.le_refl _) (by simp) (reads.callAt_iff.mpr starts) ?_
      intro closing ends
      by_contra reached
      obtain ⟨inner, after, found⟩ :=
        reads.spanCall_of_matches ends (Nat.lt_of_not_le reached)
      rw [unclosed] at found
      contradiction
  | call quoting out c rest inner after starts spanned within behind =>
      obtain ⟨rfl, rfl⟩ := startsCall_spec starts
      obtain ⟨rfl, enclosed⟩ := spanCall_eq_some_enclosed.mp spanned
      have closed := reads.closedCall (reads.callAt_iff.mpr starts) enclosed
      have name := reads.nameBefore_eq
      rw [starting] at closed name
      rw [List.length_cons, List.length_append, List.length_cons] at ending
      have reaches : low + 1 + inner.length < high := by omega
      have arguments :
          CallOutcome functions whole (low + 1) (low + 1 + inner.length) inner
          (functions.resolve inner) := by
        apply within reads.arguments
        · simp [starting]
        · rfl
      obtain ⟨unknown, called, extended⟩ :=
        keeping.call_closed free closed reaches arguments
      have shown : (')' :: (inner.reverse ++ '(' :: out)).reverse ++ after =
          out.reverse ++ '(' :: (inner ++ ')' :: after) := by simp
      have following :
          CallOutcome functions whole (low + 1 + inner.length + 1) high
          (out.reverse ++ '(' :: (inner ++ ')' :: after))
            (functions.resolveAfter .outside
            (')' :: (inner.reverse ++ '(' :: out)) after) := by
        rw [← shown]
        apply behind _ (reads.behind enclosed)
        · simp [starting]
          omega
        · omega
      have outcome := following.call closed reaches extended
      rw [resolveAfter_call _ starts spanned, ← name, called]
      dsimp only
      rw [resolveBehind, name, kept_reverse]
      generalize functions.resolveAfter .outside _ after = result at outcome
      cases result with
      | ok following => exact outcome
      | error error => exact outcome

/-- Calls that are kept are kept verbatim.  If no builtin function is called,
resolving a text fails exactly if one of its calls is not closed; otherwise the
text comes back as it is, with the names of the unknown calls outside of
addresses. -/
theorem calls_kept_verbatim (keeping : functions.Keeping)
    (free : BuiltinFree text) :
    ((∃ rest, functions.resolve text = .error (.form (.callOpen rest))) ↔
      ∃ opening, CallAt text opening ∧ ∀ closing,
        ¬ Matches text opening closing) ∧
    ((∀ opening, CallAt text opening → ∃ closing,
      Matches text opening closing) →
      ∃ positions, Listing text 0 text.length positions ∧
        functions.resolve text =
          .ok { value := text,
                unknown := functions.namesAt text positions }) := by
  have reads : Reads text .outside [] [] text [] := ⟨by simp, rfl, rfl⟩
  have outcome :
      CallOutcome functions text 0 text.length text (functions.resolve text) :=
    keeping.outcome_resolveAfter free .outside [] text reads rfl
      (Nat.zero_add _)
  have within {opening closing : Nat} (ends : Matches text opening closing) :
      closing < text.length := (List.getElem?_eq_some_iff.mp ends.closes).1
  generalize functions.resolve text = result at outcome
  cases outcome with
  | @kept positions closed listing =>
      refine ⟨⟨?_, ?_⟩, fun _ => ⟨positions, listing, rfl⟩⟩
      · rintro ⟨rest, failed⟩
        contradiction
      · rintro ⟨opening, call, unclosed⟩
        have bound := (List.getElem?_eq_some_iff.mp call.opens).1
        obtain ⟨closing, ends, -⟩ := closed opening (Nat.zero_le _) bound call
        exact absurd ends (unclosed closing)
  | @lost opening rest after before call unclosed =>
      have never : ∀ closing, ¬ Matches text opening closing := by
        intro closing ends
        have behind := unclosed closing ends
        have less := within ends
        omega
      refine ⟨⟨fun _ => ⟨opening, call, never⟩, fun _ => ⟨rest, rfl⟩⟩, ?_⟩
      intro closed
      obtain ⟨closing, ends⟩ := closed opening call
      exact absurd ends (never closing)

/-- Unknown calls in a native one and in each other, next to a string and an
address. -/
theorem calls_kept_verbatim_nested :
    Keeping {} ∧ BuiltinFree "a(rgb(b(1)), 'ceil)') url(c(2))".toList ∧
      ∃ positions,
        Listing "a(rgb(b(1)), 'ceil)') url(c(2))".toList 0 31 positions ∧
        positions.map (nameBefore "a(rgb(b(1)), 'ceil)') url(c(2))".toList) =
          ["b".toList, "a".toList] ∧
        resolve {} "a(rgb(b(1)), 'ceil)') url(c(2))".toList = .ok {
          value := "a(rgb(b(1)), 'ceil)') url(c(2))".toList
          unknown := ["b".toList, "a".toList] } := by
  have keeping : Keeping {} := ⟨rfl, rfl, rfl⟩
  have free : BuiltinFree "a(rgb(b(1)), 'ceil)') url(c(2))".toList := by
    decide +kernel
  have closed : ∀ opening,
      CallAt "a(rgb(b(1)), 'ceil)') url(c(2))".toList opening →
      ∃ closing,
      Matches "a(rgb(b(1)), 'ceil)') url(c(2))".toList opening closing := by
    have bounded : ∀ opening < 31,
        CallAt "a(rgb(b(1)), 'ceil)') url(c(2))".toList opening →
        ∃ closing < 31,
        Matches "a(rgb(b(1)), 'ceil)') url(c(2))".toList opening closing := by
      decide +kernel
    intro opening call
    obtain ⟨closing, -, ends⟩ :=
      bounded opening (List.getElem?_eq_some_iff.mp call.opens).1 call
    exact ⟨closing, ends⟩
  obtain ⟨positions, listing, found⟩ :=
    (calls_kept_verbatim keeping free).2 closed
  have names :
      positions.map (nameBefore "a(rgb(b(1)), 'ceil)') url(c(2))".toList) =
      ["b".toList, "a".toList] := by
    have computed :
        (resolve {} "a(rgb(b(1)), 'ceil)') url(c(2))".toList).toOption.map
        Resolved.unknown = some ["b".toList, "a".toList] := by
      decide +kernel
    rw [found] at computed
    exact Option.some.inj computed
  refine ⟨keeping, free, positions, listing, names, ?_⟩
  rw [found, ← names]
  rfl

end Functions

end Stylesheet
