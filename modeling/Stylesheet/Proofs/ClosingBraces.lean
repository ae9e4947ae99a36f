import Stylesheet.Proofs.Consumption
import Stylesheet.Proofs.Reading

/-!
# Closing braces

Three readers look for the brace that closes what they have entered.  Statements
are read with `Nesting`, for which a brace in a string or in parentheses is an
ordinary character.  The contents of a group are counted with respect to strings
only, and the contents of a hole with respect to nothing.  So a group can end at
a brace in parentheses, and a hole at a brace in a string; otherwise the readers
agree.
-/

namespace Stylesheet

namespace Nesting

/-- A brace in parentheses that belongs to no interpolation. -/
def InParens (nesting : Nesting) (c : Char) : Prop :=
  (c = '{' ∨ c = '}') ∧ nesting.quoting = .outside ∧
    nesting.interpolations = 0 ∧
    0 < nesting.parens ∧ ¬ (c = '{' ∧ nesting.afterHash = true)

instance (nesting : Nesting) (c : Char) : Decidable (nesting.InParens c) :=
  inferInstanceAs (Decidable (_ ∧ _))

/-- What a character does to the braces and interpolations that are open. -/
inductive Role (nesting : Nesting) (c : Char) : Prop where
  | plain (other : nesting.quoting = .outside → c ≠ '{' ∧ c ≠ '}')
      (kept : (nesting.step c).interpolations = nesting.interpolations)
  | opens (same : c = '{') (top : nesting.isTop c = true)
      (kept : (nesting.step c).interpolations = 0)
  | closes (same : c = '}') (top : nesting.isTop c = true)
      (kept : (nesting.step c).interpolations = 0)
  | enters (same : c = '{') (outside : nesting.quoting = .outside)
      (inner : nesting.isTop c = false)
      (deeper : (nesting.step c).interpolations = nesting.interpolations + 1)
  | leaves (same : c = '}') (outside : nesting.quoting = .outside)
      (inner : nesting.isTop c = false)
      (deep : nesting.interpolations = (nesting.step c).interpolations + 1)
  | held (inside : nesting.InParens c)
      (kept : (nesting.step c).interpolations = 0)

private theorem role_opening {nesting : Nesting}
    (outside : nesting.quoting = .outside) :
    nesting.Role '{' := by
  by_cases entering : nesting.afterHash = true ∨ 0 < nesting.interpolations
  · apply Role.enters rfl outside
    · rcases entering with hash | deep
      · simp [isTop, hash]
      · simp [isTop, Nat.ne_of_gt deep]
    · simp [step, outside, Quoting.isOutside, isQuote, entering]
  · obtain ⟨hash, none⟩ := not_or.mp entering
    have flat : nesting.interpolations = 0 := by omega
    have kept : (nesting.step '{').interpolations = 0 := by
      simp [step, outside, Quoting.isOutside, isQuote, hash, flat]
    by_cases bare : nesting.parens = 0
    · apply Role.opens rfl _ kept
      simp [isTop, outside, Quoting.isOutside, isQuote, hash, flat, bare]
    · apply Role.held _ kept
      exact ⟨.inl rfl, outside, flat, by omega, fun entered => hash entered.2⟩

private theorem role_closing {nesting : Nesting}
    (outside : nesting.quoting = .outside) :
    nesting.Role '}' := by
  by_cases flat : nesting.interpolations = 0
  · have kept : (nesting.step '}').interpolations = 0 := by
      simp [step, outside, Quoting.isOutside, isQuote, flat]
    by_cases bare : nesting.parens = 0
    · apply Role.closes rfl _ kept
      simp [isTop, outside, Quoting.isOutside, isQuote, flat, bare]
    · apply Role.held _ kept
      exact ⟨.inr rfl, outside, flat, by omega, by simp⟩
  · apply Role.leaves rfl outside
    · simp [isTop, flat]
    · have deep : 0 < nesting.interpolations := by omega
      simp only [step, outside, Quoting.isOutside, deep]
      simp [isQuote]
      omega

/-- Every character has one of the roles. -/
theorem role (nesting : Nesting) (c : Char) : nesting.Role c := by
  by_cases outside : nesting.quoting = .outside
  · by_cases opening : c = '{'
    · exact opening ▸ role_opening outside
    · by_cases closing : c = '}'
      · exact closing ▸ role_closing outside
      · exact .plain (fun _ => ⟨opening, closing⟩)
          (interpolations_step opening closing nesting)
  · apply Role.plain fun impossible => absurd impossible outside
    have quoted : nesting.quoting.isOutside = false := by
      rw [Bool.eq_false_iff]
      exact fun isOutside => outside (Quoting.eq_outside isOutside)
    simp [step, quoted]

theorem quoting_of_isTop {nesting : Nesting} {c : Char}
    (top : nesting.isTop c = true) :
    nesting.quoting = .outside ∧ nesting.interpolations = 0 := by
  simp only [isTop, Bool.and_eq_true, beq_iff_eq] at top
  exact ⟨Quoting.eq_outside top.1.1.1.1.1.1, top.1.1.1.1.2⟩

/-- A closing brace is at the top level if nothing is open in front of it. -/
theorem isTop_closing {nesting : Nesting} (outside : nesting.quoting = .outside)
    (flat : nesting.interpolations = 0) : nesting.isTop '}' = true ↔
      nesting.parens = 0 := by
  simp [isTop, outside, Quoting.isOutside, isQuote, flat]

end Nesting

section Groups

variable {depth : Nat} {quoting : Quoting} {c : Char} {rest : Text}

theorem spanGroup_opening (outside : quoting = .outside) :
    spanGroup '{' '}' depth quoting ('{' :: rest) =
      (spanGroup '{' '}' (depth + 1) (quoting.step '{') rest).map
        ('{' :: ·) := by
  subst outside
  rw [Quoting.step_outside rfl]
  simp [spanGroup, Quoting.isOutside]

theorem spanGroup_closing (outside : quoting = .outside) :
    spanGroup '{' '}' (depth + 1) quoting ('}' :: rest) =
      (spanGroup '{' '}' depth (quoting.step '}') rest).map ('}' :: ·) := by
  subst outside
  rw [Quoting.step_outside rfl]
  simp [spanGroup, Quoting.isOutside]

theorem spanGroup_closed (outside : quoting = .outside) :
    spanGroup '{' '}' 0 quoting ('}' :: rest) = some [] := by
  simp [spanGroup, outside, Quoting.isOutside]

theorem spanGroup_plain (other : quoting = .outside → c ≠ '{' ∧ c ≠ '}') :
    spanGroup '{' '}' depth quoting (c :: rest) =
      (spanGroup '{' '}' depth (quoting.step c) rest).map (c :: ·) := by
  cases quoting with
  | outside => simp [spanGroup, other rfl]
  | inside mark => simp [spanGroup, Quoting.isOutside]
  | escaped mark => simp [spanGroup, Quoting.isOutside]

end Groups

namespace Nesting

/-- The contents of a block, for a text that starts inside of it with `depth`
further ones open.  Only braces at the top level open and close blocks. -/
def spanBlock (depth : Nat) (nesting : Nesting) : Text → Option Text
  | [] => none
  | c :: rest =>
      if nesting.isTop c && c == '{' then
        (spanBlock (depth + 1) (nesting.step c) rest).map (c :: ·)
      else if nesting.isTop c && c == '}' then
        if depth == 0 then some []
        else (spanBlock (depth - 1) (nesting.step c) rest).map (c :: ·)
      else (spanBlock depth (nesting.step c) rest).map (c :: ·)

section Blocks

variable {depth : Nat} {nesting : Nesting} {c : Char}
  {text rest contents : Text}

theorem spanBlock_opening (top : nesting.isTop '{' = true) :
    nesting.spanBlock depth ('{' :: rest) =
      ((nesting.step '{').spanBlock (depth + 1) rest).map ('{' :: ·) := by
  simp [spanBlock, top]

theorem spanBlock_closing (top : nesting.isTop '}' = true) :
    nesting.spanBlock (depth + 1) ('}' :: rest) =
      ((nesting.step '}').spanBlock depth rest).map ('}' :: ·) := by
  simp [spanBlock, top]

theorem spanBlock_closed (top : nesting.isTop '}' = true) :
    nesting.spanBlock 0 ('}' :: rest) = some [] := by
  simp [spanBlock, top]

theorem spanBlock_plain (other : nesting.isTop c = true → c ≠ '{' ∧ c ≠ '}') :
    nesting.spanBlock depth (c :: rest) =
      ((nesting.step c).spanBlock depth rest).map (c :: ·) := by
  cases top : nesting.isTop c with
  | false => simp [spanBlock, top]
  | true => simp [spanBlock, other top]

/-- The contents of a block stand before a closing brace. -/
theorem spanBlock_split (found : nesting.spanBlock depth text = some contents) :
    ∃ rest, text = contents ++ '}' :: rest := by
  induction text generalizing depth nesting contents with
  | nil => simp [spanBlock] at found
  | cons c rest ih =>
      have further : ∀ {depth : Nat},
          ((nesting.step c).spanBlock depth rest).map (c :: ·) = some contents →
            ∃ behind, c :: rest = contents ++ '}' :: behind := by
        intro depth mapped
        obtain ⟨inner, innerFound, rfl⟩ := Option.map_eq_some_iff.mp mapped
        obtain ⟨behind, same⟩ := ih innerFound
        exact ⟨behind, by rw [same, List.cons_append]⟩
      unfold spanBlock at found
      split at found
      · exact further found
      · split at found
        · rename_i closes
          split at found
          · obtain rfl := Option.some.inj found
            simp only [Bool.and_eq_true, beq_iff_eq] at closes
            exact ⟨rest, by rw [closes.2, List.nil_append]⟩
          · exact further found
        · exact further found

/-- Groups and blocks have the same contents if no brace stands in parentheses
there. -/
theorem spanGroup_iff_spanBlock
    (free : nesting.Along (fun nesting c => ¬ nesting.InParens c)
      (contents ++ ['}'])) :
    spanGroup '{' '}' (depth + nesting.interpolations) nesting.quoting text =
      some contents ↔
      nesting.spanBlock depth text = some contents := by
  induction text generalizing depth nesting contents with
  | nil => simp [spanGroup, spanBlock]
  | cons c rest ih =>
      have outset : ∀ {behind}, c :: rest = contents ++ '}' :: behind →
          ∃ tail, contents ++ ['}'] = c :: tail := by
        intro behind same
        cases contents with
        | nil => exact ⟨[], by rw [(List.cons.inj same).1]; rfl⟩
        | cons d inner =>
            exact ⟨inner ++ ['}'], by rw [(List.cons.inj same).1]; rfl⟩
      by_cases starts : ∃ tail, contents ++ ['}'] = c :: tail
      · obtain ⟨tail, shape⟩ := starts
        rw [shape] at free
        obtain ⟨loose, later⟩ := along_cons.mp free
        -- Behind the character, a group has as many more braces open as there
        -- are interpolations.
        have further : ∀ {inner outer : Nat},
            inner = outer + (nesting.step c).interpolations →
            ((spanGroup '{' '}' inner (nesting.quoting.step c) rest).map
              (c :: ·) =
                some contents ↔
              ((nesting.step c).spanBlock outer rest).map (c :: ·) =
                some contents) := by
          rintro _ outer rfl
          rw [← quoting_step, Option.map_eq_some_iff, Option.map_eq_some_iff]
          refine exists_congr fun inside => and_congr_left fun whole => ?_
          rw [← whole, List.cons_append] at shape
          exact ih ((List.cons.inj shape).2 ▸ later)
        rcases nesting.role c with ⟨other, kept⟩ | ⟨rfl, top, kept⟩
          | ⟨rfl, top, kept⟩ |
          ⟨rfl, outside, inner, deeper⟩
          | ⟨rfl, outside, inner, deep⟩ | ⟨inside, -⟩
        · rw [spanGroup_plain other, spanBlock_plain
            fun top => other (quoting_of_isTop top).1]
          exact further (by omega)
        · obtain ⟨outside, flat⟩ := quoting_of_isTop top
          rw [spanGroup_opening outside, spanBlock_opening top]
          exact further (by omega)
        · obtain ⟨outside, flat⟩ := quoting_of_isTop top
          rw [flat]
          cases depth with
          | zero => rw [spanGroup_closed outside, spanBlock_closed top]
          | succ depth =>
              rw [Nat.add_zero, spanGroup_closing outside,
                spanBlock_closing top]
              exact further (by omega)
        · rw [spanGroup_opening outside, spanBlock_plain (by simp [inner])]
          exact further (by omega)
        · rw [deep, ← Nat.add_assoc, spanGroup_closing outside,
            spanBlock_plain (by simp [inner])]
          exact further rfl
        · exact absurd inside loose
      · constructor
        · intro found
          obtain ⟨⟨behind, same⟩, -⟩ := spanGroup_split rfl rfl found
          exact absurd (outset same) starts
        · intro found
          obtain ⟨behind, same⟩ := spanBlock_split found
          exact absurd (outset same) starts

/-- A group leaves no interpolation open. -/
theorem interpolations_of_spanGroup (fits : nesting.interpolations ≤ depth)
    (found : spanGroup '{' '}' depth nesting.quoting text = some contents) :
    (nesting.after contents).interpolations = 0 := by
  induction text generalizing depth nesting contents with
  | nil => simp [spanGroup] at found
  | cons c rest ih =>
      -- Where the group goes on, there are enough braces open for the
      -- interpolations.
      have further : ∀ {depth : Nat}, (nesting.step c).interpolations ≤ depth →
          (spanGroup '{' '}' depth (nesting.quoting.step c) rest).map (c :: ·) =
            some contents →
            (nesting.after contents).interpolations = 0 := by
        intro depth enough mapped
        obtain ⟨inner, innerFound, rfl⟩ := Option.map_eq_some_iff.mp mapped
        rw [← quoting_step] at innerFound
        exact @ih depth (nesting.step c) inner enough innerFound
      have opened : nesting.quoting = .outside → c = '{' →
          (nesting.step c).interpolations ≤ depth + 1 →
            (nesting.after contents).interpolations = 0 := by
        rintro outside rfl enough
        rw [spanGroup_opening outside] at found
        exact further enough found
      have closed : nesting.quoting = .outside → c = '}' →
          (depth = 0 → nesting.interpolations = 0) →
          (nesting.step c).interpolations ≤ depth - 1 →
            (nesting.after contents).interpolations = 0 := by
        rintro outside rfl last enough
        cases depth with
        | zero =>
            rw [spanGroup_closed outside] at found
            obtain rfl := Option.some.inj found
            exact last rfl
        | succ depth =>
            rw [spanGroup_closing outside] at found
            exact further enough found
      rcases nesting.role c with ⟨other, kept⟩ | ⟨same, top, kept⟩
        | ⟨same, top, kept⟩ |
        ⟨same, outside, -, deeper⟩ | ⟨same, outside, -, deep⟩ | ⟨inside, kept⟩
      · rw [spanGroup_plain other] at found
        exact further (by omega) found
      · exact opened (quoting_of_isTop top).1 same (by omega)
      · obtain ⟨outside, flat⟩ := quoting_of_isTop top
        exact closed outside same (fun _ => flat) (by omega)
      · exact opened outside same (by omega)
      · exact closed outside same (by omega) (by omega)
      · obtain ⟨opening | closing, outside, flat, -, -⟩ := inside
        · exact opened outside opening (by omega)
        · exact closed outside closing (fun _ => flat) (by omega)

end Blocks

end Nesting

open Compile in
/-- The brace that ends a group is outside of strings and interpolations, and it
is at the top level exactly if no parenthesis is open in front of it.  If no
brace up to there stands in parentheses, the group is the block that the braces
at the top level delimit. -/
theorem group_ends_at_top {state : State} {text : Text}
    (here : state.At ('{' :: text)) :
    (∀ body after, reading (Reader.readGroup '{' '}') state = .ok body after →
      (∃ rest, text = body ++ '}' :: rest ∧ after.At rest) ∧
        (Nesting.after {} body).quoting = .outside ∧
        (Nesting.after {} body).interpolations = 0 ∧
        ((Nesting.after {} body).isTop '}' = true ↔
          (Nesting.after {} body).parens = 0)) ∧
    ∀ body,
      Nesting.Along (fun nesting c => ¬ nesting.InParens c) {} (body ++ ['}']) →
      ((∃ after, reading (Reader.readGroup '{' '}') state = .ok body after) ↔
        Nesting.spanBlock 0 {} text = some body) ∧
      (Nesting.spanBlock 0 {} text = some body →
        (Nesting.after {} body).isTop '}' = true) := by
  have ended : ∀ {body}, spanGroup '{' '}' 0 .outside text = some body →
      (Nesting.after {} body).quoting = .outside ∧
        (Nesting.after {} body).interpolations = 0 := by
    intro body found
    constructor
    · rw [Nesting.quoting_after]
      exact (spanGroup_split rfl rfl found).2
    · exact @Nesting.interpolations_of_spanGroup 0 {} text body
        (Nat.le_refl 0) found
  have spanned : ∀ {body after}, reading (Reader.readGroup '{' '}') state =
      .ok body after →
      (∃ rest, text = body ++ '}' :: rest ∧ after.At rest) ∧
        spanGroup '{' '}' 0 .outside text = some body := by
    intro body after read
    obtain ⟨taken, rest, passed, rfl, found⟩ :=
      takes_readGroup rfl rfl state body after here.ready read
    have whole : text = body ++ '}' :: rest := by
      have pending := here.pending.symm.trans passed.pending
      simpa using pending
    refine
      ⟨⟨rest, whole, passed.ready here.ready, passed.rest_eq here.ready⟩, ?_⟩
    rwa [whole]
  constructor
  · intro body after read
    obtain ⟨whole, found⟩ := spanned read
    obtain ⟨outside, flat⟩ := ended found
    exact ⟨whole, outside, flat, Nesting.isTop_closing outside flat⟩
  · intro body free
    have same : spanGroup '{' '}' 0 .outside text = some body ↔
        Nesting.spanBlock 0 {} text = some body :=
      @Nesting.spanGroup_iff_spanBlock 0 {} text body free
    refine ⟨⟨fun ⟨after, read⟩ => same.mp (spanned read).2, ?_⟩, ?_⟩
    · intro block
      have found := same.mpr block
      obtain ⟨⟨rest, whole⟩, -⟩ := spanGroup_split rfl rfl found
      rw [whole] at found here
      exact ⟨_, reading_readGroup here found⟩
    · intro block
      obtain ⟨outside, flat⟩ := ended (same.mpr block)
      rw [Nesting.isTop_closing outside flat]
      by_contra unclosed
      exact free body '}' [] rfl
        ⟨.inr rfl, outside, flat, Nat.pos_of_ne_zero unclosed, by simp⟩

namespace GroupSample

/-- The contents of a block with braces in a string, in an interpolation and of
a nested block. -/
def body : Text :=
  "a: '\x7d' #\x7bb\x7d url(x); c \x7b d: e \x7d".toList

def state : State :=
  Compilation.start {} ('{' :: (body ++ "\x7d f".toList)) none

end GroupSample

open Compile GroupSample in
theorem group_ends_at_top_nested :
    state.At ('{' :: (body ++ "\x7d f".toList)) ∧
      Nesting.Along (fun nesting c => ¬ nesting.InParens c) {} (body ++ ['}']) ∧
      (∃ after, reading (Reader.readGroup '{' '}') state = .ok body after ∧
        after.At " f".toList) ∧
      (Nesting.after {} body).isTop '}' = true := by
  have here : state.At ('{' :: (body ++ "\x7d f".toList)) := State.at_start rfl
  have free : Nesting.Along (fun nesting c => ¬ nesting.InParens c) {}
      (body ++ ['}']) := by
    decide +kernel
  have block : Nesting.spanBlock 0 {} (body ++ "\x7d f".toList) =
      some body := by decide +kernel
  obtain ⟨ends, agrees⟩ := group_ends_at_top here
  obtain ⟨same, top⟩ := agrees body free
  obtain ⟨after, read⟩ := same.mpr block
  obtain ⟨⟨rest, whole, left⟩, -⟩ := ends body after read
  obtain rfl : " f".toList = rest := by simpa using whole
  exact ⟨here, free, ⟨after, read, left⟩, top block⟩

open Compile in
/-- A brace in parentheses ends a group, though it does not end the declaration
it stands in: the same declaration is accepted in a block and refused in the
body of a mixin. -/
theorem group_ends_in_parens :
    (∃ after, reading (Reader.readGroup '{' '}')
        (Compilation.start {} "\x7b a: url(\x7d); \x7d".toList none) =
          .ok " a: url(".toList after) ∧
      (Nesting.after {} " a: url(".toList).isTop '}' = false ∧
      (compile 9 ".a \x7b a: url(\x7d); \x7d".toList).2 =
        ".a \x7b\n\ta: url(\x7d);\n\x7d\n".toList ∧
      (compile 9
        "@mixin m \x7b a: url(\x7d); \x7d .a \x7b @include m; \x7d".toList).1.message? =
        some "property outside of a selector block: ')'".toList :=
  ⟨⟨_, rfl⟩, by decide +kernel, by decide +kernel, by decide +kernel⟩

namespace Nesting

/-- The character at `place` is the first one after which no interpolation is
open. -/
def LeavesAt (nesting : Nesting) (text : Text) (place : Nat) : Prop :=
  place < text.length ∧
    (nesting.after (text.take (place + 1))).interpolations = 0 ∧
    ∀ earlier, earlier ≤ place →
      0 < (nesting.after (text.take earlier)).interpolations

instance (nesting : Nesting) (text : Text) (place : Nat) :
    Decidable (nesting.LeavesAt text place) :=
  inferInstanceAs (Decidable (_ ∧ _ ∧ _))

/-- If the character is a brace, it is one outside of strings. -/
def Unquoted (nesting : Nesting) (c : Char) : Prop :=
  c = '{' ∨ c = '}' → nesting.quoting = .outside

instance (nesting : Nesting) (c : Char) : Decidable (nesting.Unquoted c) :=
  inferInstanceAs (Decidable (_ → _))

section Holes

variable {depth place : Nat} {nesting : Nesting} {c : Char} {text rest : Text}

private theorem not_leavesAt_nil : ¬ nesting.LeavesAt [] place := by
  intro leaves
  exact Nat.not_lt_zero place leaves.1

theorem leavesAt_zero :
    nesting.LeavesAt (c :: rest) 0 ↔
      0 < nesting.interpolations ∧ (nesting.step c).interpolations = 0 := by
  constructor
  · rintro ⟨-, out, inside⟩
    exact ⟨inside 0 (Nat.le_refl 0), out⟩
  · rintro ⟨inside, out⟩
    refine ⟨Nat.succ_pos _, out, ?_⟩
    intro earlier before
    obtain rfl := Nat.le_zero.mp before
    exact inside

theorem leavesAt_succ :
    nesting.LeavesAt (c :: rest) (place + 1) ↔
      0 < nesting.interpolations ∧ (nesting.step c).LeavesAt rest place := by
  constructor
  · rintro ⟨within, out, inside⟩
    refine ⟨inside 0 (Nat.zero_le _), Nat.lt_of_succ_lt_succ within, out, ?_⟩
    intro earlier before
    exact inside (earlier + 1) (Nat.succ_le_succ before)
  · rintro ⟨here, within, out, inside⟩
    refine ⟨Nat.succ_lt_succ within, out, ?_⟩
    intro earlier before
    cases earlier with
    | zero => exact here
    | succ earlier => exact inside earlier (Nat.le_of_succ_le_succ before)

/-- A hole ends where its interpolation is left, if no brace up to there stands
in a string: until then, one more interpolation is open than there are braces to
close. -/
theorem leavesAt_iff_spanHole (deep : nesting.interpolations = depth + 1)
    (unquoted : nesting.Along Unquoted (text.take (place + 1))) :
    nesting.LeavesAt text place ↔
      (spanHole depth text).map (fun hole => hole.1.length) = some place := by
  induction text generalizing depth nesting place with
  | nil => simp [spanHole, not_leavesAt_nil]
  | cons c rest ih =>
      rw [List.take_succ_cons] at unquoted
      obtain ⟨here, later⟩ := along_cons.mp unquoted
      -- Where the hole goes on, its length is one more than that of the rest.
      have further : ∀ {inner : Nat},
          (nesting.step c).interpolations = inner + 1 →
          (spanHole depth (c :: rest) =
            (spanHole inner rest).map fun hole => (c :: hole.1, hole.2)) →
          (nesting.LeavesAt (c :: rest) place ↔
            (spanHole depth (c :: rest)).map (fun hole => hole.1.length) =
              some place) := by
        intro inner remain shape
        have longer :
            (spanHole depth (c :: rest)).map (fun hole => hole.1.length) =
            ((spanHole inner rest).map (fun hole => hole.1.length)).map
              (· + 1) := by
          rw [shape, Option.map_map, Option.map_map]
          rfl
        rw [longer]
        cases place with
        | zero => simp [leavesAt_zero, remain]
        | succ place =>
            have within := ih remain later
            simp [leavesAt_succ, within, deep]
      rcases nesting.role c with ⟨other, kept⟩ | ⟨-, top, -⟩ | ⟨-, top, -⟩ |
        ⟨rfl, -, -, deeper⟩ | ⟨rfl, -, -, left⟩ | ⟨inside, -⟩
      · have plain : c ≠ '{' ∧ c ≠ '}' := by
          constructor
          · intro opening
            exact (other (here (.inl opening))).1 opening
          · intro closing
            exact (other (here (.inr closing))).2 closing
        apply further (kept.trans deep)
        simp [spanHole, plain]
      · have flat := (quoting_of_isTop top).2
        omega
      · have flat := (quoting_of_isTop top).2
        omega
      · apply further (deeper.trans (congrArg (· + 1) deep))
        simp [spanHole]
      · cases depth with
        | zero =>
            have out : (nesting.step '}').interpolations = 0 := by omega
            cases place with
            | zero => simp [leavesAt_zero, out, deep, spanHole]
            | succ place =>
                have outside : ¬ (nesting.step '}').LeavesAt rest place := by
                  intro leaves
                  have inside := leaves.2.2 0 (Nat.zero_le place)
                  rw [List.take_zero] at inside
                  exact absurd out (Nat.ne_of_gt inside)
                simp [leavesAt_succ, outside, spanHole]
        | succ depth =>
            apply further
              (by omega : (nesting.step '}').interpolations = depth + 1)
            simp [spanHole]
      · have flat := inside.2.2.1
        omega

end Holes

end Nesting

/-- If no brace stands in a string, the interpolation that a hole opens is left
with the brace at which the hole ends, and it is never left if the hole does not
end. -/
theorem hole_ends_with_interpolation (text : Text) :
    let start := Nesting.after {} ['#', '{']
    (∀ place, start.Along Nesting.Unquoted (text.take (place + 1)) →
      (start.LeavesAt text place ↔
        (spanHole 0 text).map (fun hole => hole.1.length) = some place)) ∧
    (start.Along Nesting.Unquoted text →
      ((∃ place, start.LeavesAt text place) ↔
        (spanHole 0 text).isSome = true)) := by
  intro start
  have agree : ∀ place, start.Along Nesting.Unquoted (text.take (place + 1)) →
      (start.LeavesAt text place ↔
        (spanHole 0 text).map (fun hole => hole.1.length) = some place) :=
    fun place unquoted => Nesting.leavesAt_iff_spanHole rfl unquoted
  refine ⟨agree, ?_⟩
  intro unquoted
  have front : ∀ place,
      start.Along Nesting.Unquoted (text.take (place + 1)) := by
    intro place earlier c later same
    apply unquoted earlier c (later ++ text.drop (place + 1))
    rw [← List.cons_append, ← List.append_assoc, ← same, List.take_append_drop]
  constructor
  · rintro ⟨place, leaves⟩
    have found := (agree place (front place)).mp leaves
    rw [← Option.isSome_map, found]
    rfl
  · intro ends
    obtain ⟨hole, found⟩ := Option.isSome_iff_exists.mp ends
    refine ⟨hole.1.length, (agree _ (front _)).mpr ?_⟩
    rw [found]
    rfl

theorem hole_ends_with_interpolation_nested :
    let start := Nesting.after {} ['#', '{']
    let text := "f(#\x7b'b'\x7d, \x7b\x7d) \x7d c \x7d".toList
    start.Along Nesting.Unquoted text ∧ start.LeavesAt text 14 ∧
      ∃ place, start.LeavesAt text place := by
  intro start text
  have unquoted : start.Along Nesting.Unquoted text := by decide +kernel
  obtain ⟨agree, ends⟩ := hole_ends_with_interpolation text
  exact ⟨unquoted, (agree 14 (by decide +kernel)).mpr (by decide),
    (ends unquoted).mpr (by decide)⟩

/-- A hole ends at a closing brace in a string, and does not end if an opening
brace stands in one, but the interpolation is left behind the string. -/
theorem hole_ends_in_string :
    let start := Nesting.after {} ['#', '{']
    (start.LeavesAt "'\x7d'\x7d".toList 3 ∧
      spanHole 0 "'\x7d'\x7d".toList = some (['\''], "'\x7d".toList)) ∧
    (start.LeavesAt "'\x7b'\x7d".toList 3 ∧
      spanHole 0 "'\x7b'\x7d".toList = none) ∧
    (compile 9 ".a \x7b content: #\x7b'\x7d'\x7d; \x7d".toList).2 =
      ".a \x7b\n\tcontent: ''\x7d;\n\x7d\n".toList := by
  decide +kernel

end Stylesheet
