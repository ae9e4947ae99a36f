import Stylesheet.Cursor.Nesting

/-!
# Braces

Bodies and branches are cut out of a text by counting braces outside of strings.
`Bracing` does this count over any text.  A text is `Shut` when it closes every
string that it opens, `Settled` when it closes every brace too, and contained
when it closes no brace that it did not open.  The contents of a group in braces
are settled and contained.
-/

namespace Stylesheet

/-- A property of a text's characters is checked on the text, not on all
characters there are. -/
instance (priority := 2000) decidableForallMem {property : Char → Prop}
    [DecidablePred property] (text : Text) :
    Decidable (∀ c ∈ text, property c) :=
  List.decidableBAll property text

instance (priority := 2000) decidableForallSome {property : Char → Prop}
    [DecidablePred property] : (first : Option Char) →
      Decidable (∀ c, first = some c → property c)
  | none => isTrue (by simp)
  | some c => decidable_of_iff (property c) (by simp)

/-- The string and the braces a position stands in. -/
structure Bracing where
  quoting : Quoting := .outside
  depth : Nat := 0
  deriving DecidableEq, Repr

namespace Bracing

/-- The state after one more character.  A closing brace too many changes
nothing. -/
def step (bracing : Bracing) (c : Char) : Bracing :=
  if bracing.quoting.isOutside then
    if c == '{' then { bracing with depth := bracing.depth + 1 }
    else if c == '}' then { bracing with depth := bracing.depth - 1 }
    else { bracing with quoting := bracing.quoting.step c }
  else { bracing with quoting := bracing.quoting.step c }

/-- The state after a whole text. -/
def after (bracing : Bracing) (text : Text) : Bracing :=
  text.foldl step bracing

@[simp] theorem after_nil (bracing : Bracing) : bracing.after [] = bracing :=
  rfl

@[simp] theorem after_cons (bracing : Bracing) (c : Char) (text : Text) :
    bracing.after (c :: text) = (bracing.step c).after text :=
  rfl

theorem after_append (bracing : Bracing) (first second : Text) :
    bracing.after (first ++ second) = (bracing.after first).after second :=
  List.foldl_append

/-- Whether every closing brace outside of strings has a brace to close. -/
def contains (bracing : Bracing) : Text → Bool
  | [] => true
  | c :: rest =>
      !(bracing.quoting.isOutside && c == '}' && bracing.depth == 0) &&
        (bracing.step c).contains rest

theorem contains_append (bracing : Bracing) (first second : Text) :
    bracing.contains (first ++ second) =
      (bracing.contains first && (bracing.after first).contains second) := by
  induction first generalizing bracing with
  | nil => simp [contains]
  | cons c rest ih => simp [contains, ih, Bool.and_assoc]

end Bracing

@[simp] theorem Quoting.after_nil (quoting : Quoting) :
    quoting.after [] = quoting :=
  rfl

@[simp] theorem Quoting.after_cons (quoting : Quoting) (c : Char)
    (text : Text) :
    quoting.after (c :: text) = (quoting.step c).after text :=
  rfl

theorem Quoting.after_append (quoting : Quoting) (first second : Text) :
    quoting.after (first ++ second) = (quoting.after first).after second :=
  List.foldl_append

theorem Quoting.eq_outside {quoting : Quoting}
    (outside : quoting.isOutside = true) :
    quoting = .outside := by
  cases quoting with
  | outside => rfl
  | inside mark => simp [isOutside] at outside
  | escaped mark => simp [isOutside] at outside

/-- A character that is no quote does not open a string. -/
theorem Quoting.step_outside {c : Char} (plain : isQuote c = false) :
    Quoting.outside.step c = .outside := by
  simp [step, plain]

/-- Every string that the text opens is closed in it. -/
def Shut (text : Text) : Prop :=
  Quoting.outside.after text = .outside

theorem shut_nil : Shut [] :=
  rfl

theorem Shut.append {first second : Text} (left : Shut first)
    (right : Shut second) :
    Shut (first ++ second) := by
  rw [Shut, Quoting.after_append, left, right]

theorem Shut.tail {first second : Text} (whole : Shut (first ++ second))
    (left : Shut first) :
    Shut second := by
  rwa [Shut, Quoting.after_append, left] at whole

theorem shut_of_plain {text : Text} (plain : ∀ c ∈ text, isQuote c = false) :
    Shut text := by
  induction text with
  | nil => exact shut_nil
  | cons c rest ih =>
      rw [Shut, Quoting.after_cons, Quoting.step_outside (plain c (by simp))]
      exact ih fun other member => plain other (by simp [member])

theorem shut_singleton {c : Char} (plain : isQuote c = false) : Shut [c] :=
  shut_of_plain fun other member => by rwa [List.mem_singleton.mp member]

namespace Bracing

theorem quoting_step (bracing : Bracing) (c : Char) :
    (bracing.step c).quoting = bracing.quoting.step c := by
  unfold step
  split
  · rename_i outside
    rw [Quoting.eq_outside outside]
    split
    · rename_i opening
      rw [Quoting.step_outside (by simp_all [isQuote])]
    · split
      · rename_i closing
        rw [Quoting.step_outside (by simp_all [isQuote])]
      · rfl
  · rfl

theorem quoting_after (bracing : Bracing) (text : Text) :
    (bracing.after text).quoting = bracing.quoting.after text := by
  induction text generalizing bracing with
  | nil => rfl
  | cons c rest ih => rw [after_cons, ih, quoting_step, Quoting.after_cons]

theorem depth_step_le {first second : Bracing}
    (same : first.quoting = second.quoting)
    (less : first.depth ≤ second.depth) (c : Char) :
    (first.step c).depth ≤ (second.step c).depth := by
  unfold step
  rw [same]
  split
  · split
    · simpa using less
    · split
      · dsimp only
        omega
      · exact less
  · exact less

/-- With fewer braces open at the start, fewer are open at the end. -/
theorem depth_after_le {first second : Bracing}
    (same : first.quoting = second.quoting) (less : first.depth ≤ second.depth)
    (text : Text) :
    (first.after text).depth ≤ (second.after text).depth := by
  induction text generalizing first second with
  | nil => exact less
  | cons c rest ih =>
      exact ih (by rw [quoting_step, quoting_step, same])
        (depth_step_le same less c)

end Bracing

/-- Every string and every brace that the text opens is closed in it. -/
def Settled (text : Text) : Prop :=
  Bracing.after {} text = {}

theorem Settled.shut {text : Text} (settled : Settled text) : Shut text := by
  have same := Bracing.quoting_after {} text
  rw [settled] at same
  exact same.symm

theorem Settled.append {first second : Text} (left : Settled first)
    (right : Settled second) :
    Settled (first ++ second) := by
  rw [Settled, Bracing.after_append, left, right]

/-- What is left of a settled text outside of strings is settled: the braces
that were open may be closed, but no new one stays open. -/
theorem Settled.suffix {first second : Text}
    (settled : Settled (first ++ second)) (shut : Shut first) :
    Settled second := by
  have quoting : (Bracing.after {} first).quoting = .outside := by
    rw [Bracing.quoting_after, shut]
  have ended := settled
  rw [Settled, Bracing.after_append] at ended
  have less := @Bracing.depth_after_le {} (Bracing.after {} first) quoting.symm
    (Nat.zero_le _) second
  have sameQuoting : (Bracing.after {} second).quoting = .outside := by
    have last := Bracing.quoting_after (Bracing.after {} first) second
    rw [ended, quoting] at last
    rw [Bracing.quoting_after]
    exact last.symm
  rw [ended] at less
  cases result : Bracing.after {} second with
  | mk lastQuoting depth =>
      rw [result] at less sameQuoting
      simp only at sameQuoting
      have zero : depth = 0 := Nat.le_zero.mp less
      rw [Settled, result, sameQuoting, zero]

/-- A settled text leaves no brace for a closing one after it. -/
theorem Settled.not_contains {text : Text} (settled : Settled text)
    (rest : Text) :
    Bracing.contains {} (text ++ '}' :: rest) = false := by
  rw [Bracing.contains_append, settled]
  simp [Bracing.contains, Quoting.isOutside]

/-- The text ends outside of strings and closes no brace that it did not
open. -/
structure Contained (text : Text) : Prop where
  shut : Shut text
  braces : Bracing.contains {} text = true

theorem contained_nil : Contained [] :=
  ⟨rfl, rfl⟩

/-- With more braces open at the start, more can be closed. -/
theorem Bracing.contains_mono {first second : Bracing}
    (same : first.quoting = second.quoting) (less : first.depth ≤ second.depth)
    {text : Text} (kept : first.contains text = true) :
    second.contains text = true := by
  induction text generalizing first second with
  | nil => rfl
  | cons c rest ih =>
      simp only [Bracing.contains, Bool.and_eq_true, Bool.not_eq_true',
        Bool.and_eq_false_iff, beq_eq_false_iff_ne] at kept ⊢
      obtain ⟨here, later⟩ := kept
      refine
        ⟨?_, ih (by rw [quoting_step, quoting_step, same])
          (depth_step_le same less c) later⟩
      rw [← same]
      rcases here with quotedOrOther | deeper
      · exact .inl quotedOrOther
      · exact .inr (by omega)

theorem Contained.append {first second : Text} (left : Contained first)
    (right : Contained second) : Contained (first ++ second) := by
  refine ⟨left.shut.append right.shut, ?_⟩
  rw [Bracing.contains_append, left.braces, Bool.true_and]
  refine Bracing.contains_mono ?_ (Nat.zero_le _) right.braces
  rw [Bracing.quoting_after, left.shut]

theorem contained_of_plain {text : Text}
    (plain : ∀ c ∈ text, isQuote c = false ∧ c ≠ '}') :
    Contained text := by
  refine ⟨shut_of_plain fun c member => (plain c member).1, ?_⟩
  induction text with
  | nil => rfl
  | cons c rest ih =>
      have tail := ih fun other member => plain other (by simp [member])
      have head := plain c (by simp)
      rw [Bracing.contains]
      have other : (c == '}') = false := by simpa using head.2
      simp only [other, Bool.and_false, Bool.false_and, Bool.not_false,
        Bool.true_and]
      refine Bracing.contains_mono ?_ (Nat.zero_le _) tail
      rw [Bracing.quoting_step, Quoting.step_outside head.1]

/-- The contents of a group stand before a closing character, outside of
strings. -/
theorem spanGroup_split {opening closing : Char} {depth : Nat}
    {quoting : Quoting} {text contents : Text}
    (plainOpening : isQuote opening = false)
    (plainClosing : isQuote closing = false)
    (found : spanGroup opening closing depth quoting text = some contents) :
    (∃ rest, text = contents ++ closing :: rest) ∧
      quoting.after contents = .outside := by
  induction text generalizing depth quoting contents with
  | nil => simp [spanGroup] at found
  | cons c rest ih =>
      simp only [spanGroup] at found
      split at found
      · rename_i opens
        obtain ⟨inner, innerFound, rfl⟩ := Option.map_eq_some_iff.mp found
        obtain ⟨⟨left, same⟩, outside⟩ := ih innerFound
        simp only [Bool.and_eq_true, beq_iff_eq] at opens
        refine ⟨⟨left, by rw [same, List.cons_append]⟩, ?_⟩
        rw [Quoting.eq_outside opens.1] at outside ⊢
        rw [Quoting.after_cons, opens.2, Quoting.step_outside plainOpening]
        exact outside
      · split at found
        · rename_i closes
          simp only [Bool.and_eq_true, beq_iff_eq] at closes
          split at found
          · simp only [Option.some.injEq] at found
            subst contents
            exact ⟨⟨rest, by rw [closes.2, List.nil_append]⟩,
              Quoting.eq_outside closes.1⟩
          · obtain ⟨inner, innerFound, rfl⟩ := Option.map_eq_some_iff.mp found
            obtain ⟨⟨left, same⟩, outside⟩ := ih innerFound
            refine ⟨⟨left, by rw [same, List.cons_append]⟩, ?_⟩
            rw [Quoting.eq_outside closes.1] at outside ⊢
            rw [Quoting.after_cons, closes.2, Quoting.step_outside plainClosing]
            exact outside
        · obtain ⟨inner, innerFound, rfl⟩ := Option.map_eq_some_iff.mp found
          obtain ⟨⟨left, same⟩, outside⟩ := ih innerFound
          exact ⟨⟨left, by rw [same, List.cons_append]⟩, outside⟩

/-- A group ends where it ends, whatever follows. -/
theorem spanGroup_following {opening closing : Char} {depth : Nat}
    {quoting : Quoting} {contents rest : Text}
    (found : spanGroup opening closing depth quoting
      (contents ++ closing :: rest) = some contents)
    (more : Text) :
    spanGroup opening closing depth quoting (contents ++ closing :: more) =
      some contents := by
  induction contents generalizing depth quoting with
  | nil =>
      simp only [List.nil_append, spanGroup] at found ⊢
      split at found
      · simp at found
      · rename_i notOpening
        rw [if_neg notOpening]
        split at found
        · rename_i closes
          rw [if_pos closes]
          split at found
          · rename_i last
            rw [if_pos last]
          · simp at found
        · simp at found
  | cons c contents ih =>
      simp only [List.cons_append, spanGroup] at found ⊢
      split at found
      · rename_i opens
        rw [if_pos opens]
        simpa using ih (by simpa using found)
      · rename_i notOpening
        rw [if_neg notOpening]
        split at found
        · rename_i closes
          rw [if_pos closes]
          split at found
          · simp at found
          · rename_i deeper
            rw [if_neg deeper]
            simpa using ih (by simpa using found)
        · rename_i notClosing
          rw [if_neg notClosing]
          simpa using ih (by simpa using found)

theorem spanGroup_braces {depth : Nat} {quoting : Quoting}
    {text contents : Text}
    (found : spanGroup '{' '}' depth quoting text = some contents) :
    Bracing.after ⟨quoting, depth⟩ contents = {} ∧
      Bracing.contains ⟨quoting, depth⟩ contents = true := by
  induction text generalizing depth quoting contents with
  | nil => simp [spanGroup] at found
  | cons c rest ih =>
      simp only [spanGroup] at found
      split at found
      · rename_i opens
        obtain ⟨inner, innerFound, rfl⟩ := Option.map_eq_some_iff.mp found
        simp only [Bool.and_eq_true, beq_iff_eq] at opens
        obtain ⟨ended, kept⟩ := ih innerFound
        simp [Bracing.contains, Bracing.step, opens, ended, kept]
      · split at found
        · rename_i closes
          simp only [Bool.and_eq_true, beq_iff_eq] at closes
          split at found
          · rename_i last
            simp only [Option.some.injEq] at found
            simp only [beq_iff_eq] at last
            subst contents
            simp [Bracing.contains, Quoting.eq_outside closes.1, last]
          · rename_i deeper
            obtain ⟨inner, innerFound, rfl⟩ := Option.map_eq_some_iff.mp found
            obtain ⟨ended, kept⟩ := ih innerFound
            simp only [beq_iff_eq] at deeper
            simp [Bracing.contains, Bracing.step, closes, ended, kept, deeper]
        · rename_i notOpening notClosing
          obtain ⟨inner, innerFound, rfl⟩ := Option.map_eq_some_iff.mp found
          obtain ⟨ended, kept⟩ := ih innerFound
          have same : Bracing.step ⟨quoting, depth⟩ c =
              ⟨quoting.step c, depth⟩ := by
            unfold Bracing.step
            split
            · rename_i outside
              simp_all
            · rfl
          rw [Bracing.after_cons, Bracing.contains, same]
          refine ⟨ended, ?_⟩
          have inside : (quoting.isOutside && c == '}') = false := by
            simpa using notClosing
          simp [inside, kept]

/-- A text that closes only its own braces leaves one more open around it. -/
theorem Bracing.after_deeper {quoting : Quoting} {depth : Nat} {text : Text}
    (kept : Bracing.contains ⟨quoting, depth⟩ text = true) :
    Bracing.after ⟨quoting, depth + 1⟩ text =
      ⟨(Bracing.after ⟨quoting, depth⟩ text).quoting,
        (Bracing.after ⟨quoting, depth⟩ text).depth + 1⟩ := by
  induction text generalizing quoting depth with
  | nil => rfl
  | cons c rest ih =>
      simp only [Bracing.contains, Bool.and_eq_true, Bool.not_eq_true'] at kept
      have deeper : Bracing.step ⟨quoting, depth + 1⟩ c =
          ⟨(Bracing.step ⟨quoting, depth⟩ c).quoting,
            (Bracing.step ⟨quoting, depth⟩ c).depth + 1⟩ := by
        have here := kept.1
        simp only [Bracing.step]
        split
        · rename_i outside
          split
          · rfl
          · split
            · rename_i closes
              have positive : depth ≠ 0 := by
                simpa [outside, closes] using here
              simp only [Bracing.mk.injEq, true_and]
              omega
            · rfl
        · rfl
      rw [after_cons, after_cons, deeper]
      exact ih kept.2

/-- A group in braces closes what it opens. -/
theorem contained_group {text contents : Text}
    (found : spanGroup '{' '}' 0 .outside text = some contents) :
    Contained ('{' :: contents ++ ['}']) := by
  obtain ⟨settled, braces⟩ := spanGroup_braces found
  have opened : Bracing.after ⟨.outside, 1⟩ contents = ⟨.outside, 1⟩ := by
    rw [Bracing.after_deeper braces, settled]
  have settledContents : Settled contents := settled
  refine
    ⟨(shut_singleton rfl).append
      (settledContents.shut.append (shut_singleton rfl)), ?_⟩
  have deeper : Bracing.contains ⟨.outside, 1⟩ contents = true :=
    @Bracing.contains_mono {} ⟨.outside, 1⟩ rfl (Nat.zero_le _) contents braces
  have inside : Bracing.contains ⟨.outside, 1⟩ (contents ++ ['}']) = true := by
    rw [Bracing.contains_append, opened, deeper]
    rfl
  exact inside

/-- Where the brace before a text is closed in it, a group ends there, whatever
follows. -/
theorem spanGroup_of_closed {depth : Nat} {quoting : Quoting} {text : Text}
    (closed : Bracing.after ⟨quoting, depth + 1⟩ text = {}) :
    ∃ contents rest, text = contents ++ '}' :: rest ∧
      ∀ more, spanGroup '{' '}' depth quoting (text ++ more) =
        some contents := by
  induction text generalizing depth quoting with
  | nil => simp at closed
  | cons c rest ih =>
      rw [Bracing.after_cons] at closed
      by_cases outside : quoting.isOutside = true
      · by_cases opens : c = '{'
        · subst c
          rw [show Bracing.step ⟨quoting, depth + 1⟩ '{' =
            ⟨quoting, depth + 1 + 1⟩ by
            simp [Bracing.step, outside]] at closed
          obtain ⟨contents, left, same, found⟩ := ih closed
          refine ⟨'{' :: contents, left, by rw [same, List.cons_append],
            fun more => ?_⟩
          simp [spanGroup, outside, found more]
        · by_cases closes : c = '}'
          · subst c
            cases depth with
            | zero =>
                exact ⟨[], rest, rfl, fun more => by simp [spanGroup, outside]⟩
            | succ depth =>
                rw [show Bracing.step ⟨quoting, depth + 1 + 1⟩ '}' =
                  ⟨quoting, depth + 1⟩ by
                  simp [Bracing.step, outside]] at closed
                obtain ⟨contents, left, same, found⟩ := ih closed
                refine ⟨'}' :: contents, left, by rw [same, List.cons_append],
                  fun more => ?_⟩
                simp [spanGroup, outside, found more]
          · rw [show Bracing.step ⟨quoting, depth + 1⟩ c =
              ⟨quoting.step c, depth + 1⟩ by
              simp [Bracing.step, outside, opens, closes]] at closed
            obtain ⟨contents, left, same, found⟩ := ih closed
            refine ⟨c :: contents, left, by rw [same, List.cons_append],
              fun more => ?_⟩
            simp [spanGroup, outside, opens, closes, found more]
      · rw [show Bracing.step ⟨quoting, depth + 1⟩ c =
          ⟨quoting.step c, depth + 1⟩ by
          simp [Bracing.step, outside]] at closed
        obtain ⟨contents, left, same, found⟩ := ih closed
        refine ⟨c :: contents, left, by rw [same, List.cons_append],
          fun more => ?_⟩
        simp [spanGroup, outside, found more]

namespace Nesting

theorem spanUntil_prefix (stop : Char → Bool) (nesting : Nesting)
    (text : Text) :
    ∃ rest, text = nesting.spanUntil stop text ++ rest := by
  induction text generalizing nesting with
  | nil => exact ⟨[], rfl⟩
  | cons c rest ih =>
      unfold spanUntil
      split
      · exact ⟨c :: rest, rfl⟩
      · obtain ⟨left, same⟩ := ih (nesting.step c)
        exact ⟨left, by rw [List.cons_append, ← same]⟩

/-- Parentheses and interpolations make no difference to where strings are. -/
theorem quoting_step (nesting : Nesting) (c : Char) :
    (nesting.step c).quoting = nesting.quoting.step c := by
  unfold step
  dsimp only
  split
  · rfl
  · rename_i plain
    simp only [Bool.or_eq_true, Bool.not_eq_true', not_or, Bool.not_eq_false,
      Bool.not_eq_true] at plain
    rw [Quoting.eq_outside plain.1, Quoting.step_outside plain.2]
    split
    · rfl
    · split
      · split
        · rfl
        · rfl
      · split
        · rfl
        · split
          · rfl
          · rfl

theorem quoting_after (nesting : Nesting) (text : Text) :
    (nesting.after text).quoting = nesting.quoting.after text := by
  induction text generalizing nesting with
  | nil => rfl
  | cons c rest ih =>
      change ((nesting.step c).after rest).quoting = _
      rw [ih, quoting_step, Quoting.after_cons]

theorem shut_of_checkClosed {text : Text}
    (closed : (Nesting.after {} text).checkClosed = .ok ()) : Shut text := by
  rw [Shut, ← quoting_after {} text]
  unfold checkClosed at closed
  split at closed
  · simp at closed
  · rename_i outside
    exact Quoting.eq_outside (by simpa using outside)

/-- Only braces enter and leave interpolations. -/
theorem interpolations_step {c : Char} (opening : c ≠ '{') (closing : c ≠ '}')
    (nesting : Nesting) :
    (nesting.step c).interpolations = nesting.interpolations := by
  unfold step
  dsimp only
  split
  · rfl
  · simp only [opening, closing, beq_iff_eq, Bool.and_eq_true,
      false_and, if_false]
    split
    · rfl
    · split
      · rfl
      · split
        · rfl
        · rfl

/-- The property holds of every character of the text, with the nesting in front
of it. -/
def Along (property : Nesting → Char → Prop) (nesting : Nesting)
    (text : Text) : Prop :=
  ∀ earlier c later, text = earlier ++ c :: later →
    property (nesting.after earlier) c

section Along

variable {property weaker : Nesting → Char → Prop}
  {nesting : Nesting} {c : Char} {text rest : Text}

theorem along_nil : Along property nesting [] := by
  intro earlier c later same
  simp at same

theorem along_cons :
    Along property nesting (c :: rest) ↔
      property nesting c ∧ Along property (nesting.step c) rest := by
  constructor
  · intro along
    constructor
    · exact along [] c rest rfl
    · intro earlier d later same
      apply along (c :: earlier) d later
      rw [same, List.cons_append]
  · rintro ⟨first, others⟩ earlier d later same
    cases earlier with
    | nil =>
        obtain ⟨rfl, -⟩ := List.cons.inj same
        exact first
    | cons e earlier =>
        obtain ⟨rfl, tail⟩ := List.cons.inj same
        exact others earlier d later tail

theorem Along.mono (along : Along property nesting text)
    (implies : ∀ nesting c, property nesting c → weaker nesting c) :
    Along weaker nesting text := by
  intro earlier c later same
  apply implies
  exact along earlier c later same

instance decidableAlong [∀ nesting c, Decidable (property nesting c)] :
    (nesting : Nesting) → (text : Text) →
      Decidable (Along property nesting text)
  | _, [] => isTrue along_nil
  | nesting, c :: rest =>
      have := decidableAlong (nesting.step c) rest
      decidable_of_iff _ along_cons.symm

end Along

end Nesting

end Stylesheet
