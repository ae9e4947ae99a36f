import Mathlib.Data.List.Induction
import Mathlib.Logic.Basic
import Mathlib.Tactic.ByContra
import Stylesheet.Proofs.PlainText

/-!
# Lists with commas

A text is split at the commas outside of strings and brackets.  Putting the
commas back gives the text, and no part can be split again: where a comma
separates, every string and bracket before it is closed, so that the next part
starts afresh.  A closing bracket without an opening one does not count.
-/

namespace Stylesheet

/-- What a character adds to the number of open brackets. -/
def bracketWeight (quoting : Quoting) (c : Char) : Int :=
  if quoting.isOutside then
    if c = '(' ∨ c = '[' then 1
    else if c = ')' ∨ c = ']' then -1
    else 0
  else 0

/-- The number of brackets that a text opens outside of strings, less the number
of those that it closes. -/
def netBrackets (quoting : Quoting) : Text → Int
  | [] => 0
  | c :: rest => bracketWeight quoting c + netBrackets (quoting.step c) rest

theorem netBrackets_concat (quoting : Quoting) (text : Text) (c : Char) :
    netBrackets quoting (text ++ [c]) =
      netBrackets quoting text + bracketWeight (quoting.after text) c := by
  induction text generalizing quoting with
  | nil => simp [netBrackets]
  | cons d rest ih =>
      rw [List.cons_append, netBrackets, netBrackets, Quoting.after_cons, ih]
      omega

/-- The end of the text is in a string, or some of its brackets are still open:
there is a place from which on it has opened more of them than it has closed. -/
def Unclosed (text : Text) : Prop :=
  Quoting.outside.after text ≠ .outside ∨
    ∃ front back, text = front ++ back ∧
      0 < netBrackets (Quoting.outside.after front) back

namespace Grouping

theorem after_append (grouping : Grouping) (first second : Text) :
    grouping.after (first ++ second) = (grouping.after first).after second :=
  List.foldl_append

theorem step_quoting (grouping : Grouping) (c : Char) :
    (grouping.step c).quoting = grouping.quoting.step c := by
  obtain ⟨quoting, depth⟩ := grouping
  cases quoting with
  | outside =>
      have bracket : ∀ c ∈ ['(', '[', ')', ']'],
          Quoting.outside.step c = .outside := by decide
      by_cases special : c ∈ ['(', '[', ')', ']']
      · rw [bracket c special]
        simp only [List.mem_cons, List.not_mem_nil, or_false] at special
        rcases special with rfl | rfl | rfl | rfl <;> rfl
      · simp only [List.mem_cons, List.not_mem_nil, or_false, not_or] at special
        simp [step, special]
  | inside mark => rfl
  | escaped mark => rfl

theorem step_depth (grouping : Grouping) (c : Char) :
    (grouping.step c).depth =
      ((grouping.depth : Int) + bracketWeight grouping.quoting c).toNat := by
  unfold step bracketWeight
  cases grouping.quoting.isOutside with
  | false => simp
  | true =>
      by_cases opening : c = '(' ∨ c = '['
      · simp [opening]
      · by_cases closing : c = ')' ∨ c = ']'
        · simp [opening, closing]
          omega
        · simp [opening, closing]

theorem after_quoting (grouping : Grouping) (text : Text) :
    (grouping.after text).quoting = grouping.quoting.after text := by
  induction text generalizing grouping with
  | nil => rfl
  | cons c rest ih =>
      rw [Quoting.after_cons, ← step_quoting]
      exact ih (grouping.step c)

private theorem le_after_depth (grouping : Grouping) (text : Text) :
    grouping.depth + netBrackets grouping.quoting text ≤
      (grouping.after text).depth := by
  induction text generalizing grouping with
  | nil => simp [netBrackets, after]
  | cons c rest ih =>
      have later := ih (grouping.step c)
      rw [step_quoting, step_depth] at later
      change _ ≤ (((grouping.step c).after rest).depth : Int)
      rw [netBrackets]
      omega

/-- The depth is that of the brackets opened since some place. -/
theorem exists_open (text : Text) :
    ∃ front back, text = front ++ back ∧
      netBrackets (Quoting.outside.after front) back =
        (after {} text).depth := by
  induction text using List.reverseRecOn with
  | nil => exact ⟨[], [], rfl, rfl⟩
  | append_singleton text c ih =>
      obtain ⟨front, back, rfl, same⟩ := ih
      have quoting : (after {} (front ++ back)).quoting =
          (Quoting.outside.after front).after back := by
        rw [after_quoting, Quoting.after_append]
      have moved : (after {} (front ++ back ++ [c])).depth =
          ((after {} (front ++ back)).depth +
            bracketWeight ((Quoting.outside.after front).after back)
              c).toNat := by
        rw [← quoting, ← step_depth, after_append]
        rfl
      -- A surplus closing bracket leaves nothing open, and the count starts
      -- again behind it.
      by_cases surplus :
        0 ≤ netBrackets (Quoting.outside.after front) (back ++ [c])
      · refine ⟨front, back ++ [c], by rw [List.append_assoc], ?_⟩
        rw [netBrackets_concat] at surplus ⊢
        rw [moved]
        omega
      · refine ⟨front ++ back ++ [c], [], by rw [List.append_nil], ?_⟩
        rw [netBrackets_concat] at surplus
        rw [moved, netBrackets]
        omega

theorem isTop_iff {grouping : Grouping} :
    grouping.isTop = true ↔ grouping.quoting = .outside ∧
      grouping.depth = 0 := by
  rw [isTop, Bool.and_eq_true, beq_iff_eq]
  constructor
  · rintro ⟨outside, level⟩
    exact ⟨Quoting.eq_outside outside, level⟩
  · rintro ⟨outside, level⟩
    exact ⟨by rw [outside]; rfl, level⟩

theorem eq_of_isTop {grouping : Grouping} (top : grouping.isTop = true) :
    grouping = {} := by
  obtain ⟨quoting, depth⟩ := grouping
  obtain ⟨rfl, rfl⟩ := isTop_iff.mp top
  rfl

theorem after_comma {grouping : Grouping} (top : grouping.isTop = true)
    (rest : Text) :
    grouping.after (',' :: rest) = grouping.after rest := by
  obtain rfl := eq_of_isTop top
  rfl

theorem isTop_after_iff (text : Text) : (after {} text).isTop = true ↔
    ¬ Unclosed text := by
  rw [isTop_iff, after_quoting, Unclosed, not_or, not_not]
  apply and_congr_right'
  constructor
  · rintro level ⟨front, back, rfl, positive⟩
    have bound := le_after_depth (after {} front) back
    rw [← after_append, level, after_quoting] at bound
    change _ + netBrackets (Quoting.outside.after front) back ≤ _ at bound
    omega
  · intro closed
    obtain ⟨front, back, rfl, same⟩ := exists_open text
    by_contra level
    exact closed ⟨front, back, rfl, by omega⟩

end Grouping

namespace Text

variable {grouping : Grouping}

theorem splitCommasFrom_comma (top : grouping.isTop = true) (rest : Text) :
    splitCommasFrom grouping (',' :: rest) =
      [] :: splitCommasFrom grouping rest := by
  rw [splitCommasFrom, top]
  rfl

theorem splitCommasFrom_ne_nil (grouping : Grouping) (text : Text) :
    splitCommasFrom grouping text ≠ [] := by
  fun_cases splitCommasFrom grouping text <;> simp_all

theorem separating {c : Char}
    (separates : (c == ',' && grouping.isTop) = true) :
    c = ',' ∧ grouping.isTop = true := by
  simpa using separates

/-- A character that does not separate goes to the first part. -/
theorem splitCommasFrom_other {c : Char}
    (other : (c == ',' && grouping.isTop) = false) (rest : Text) :
    splitCommasFrom grouping (c :: rest) =
      (splitCommasFrom (grouping.step c) rest).modifyHead (c :: ·) := by
  rw [splitCommasFrom, other]
  cases split : splitCommasFrom (grouping.step c) rest with
  | nil => exact absurd split (splitCommasFrom_ne_nil _ _)
  | cons part parts => rfl

theorem intercalate_splitCommasFrom (grouping : Grouping) (text : Text) :
    [','].intercalate (splitCommasFrom grouping text) = text := by
  induction text generalizing grouping with
  | nil => simp [splitCommasFrom]
  | cons c rest ih =>
      cases separates : c == ',' && grouping.isTop with
      | true =>
          obtain ⟨rfl, top⟩ := separating separates
          have filled := splitCommasFrom_ne_nil grouping rest
          obtain ⟨part, parts, split⟩ := List.exists_cons_of_ne_nil filled
          have joined := ih grouping
          rw [split] at joined
          rw [splitCommasFrom_comma top, split,
            List.intercalate_cons_cons, joined]
          rfl
      | false =>
          have filled := splitCommasFrom_ne_nil (grouping.step c) rest
          obtain ⟨part, parts, split⟩ := List.exists_cons_of_ne_nil filled
          have joined := ih (grouping.step c)
          rw [split] at joined
          rw [splitCommasFrom_other separates, split, List.modifyHead_cons]
          exact (intercalate_append_head [','] [c] part parts).trans
            (congrArg (c :: ·) joined)

/-- No part holds a comma at which it could be split: the first one is read in
the same state as before, and each further one from the beginning. -/
theorem splitCommasFrom_parts (grouping : Grouping) (text : Text) :
    ∃ part parts, splitCommasFrom grouping text = part :: parts ∧
      splitCommasFrom grouping part = [part] ∧ ∀ other ∈ parts,
        splitCommas other = [other] := by
  induction text generalizing grouping with
  | nil => exact ⟨[], [], rfl, rfl, by simp⟩
  | cons c rest ih =>
      cases separates : c == ',' && grouping.isTop with
      | true =>
          obtain ⟨rfl, top⟩ := separating separates
          obtain ⟨part, parts, split, first, others⟩ := ih grouping
          refine ⟨[], part :: parts, by rw [splitCommasFrom_comma top, split],
            rfl, ?_⟩
          intro other member
          rcases List.mem_cons.mp member with rfl | further
          · rw [splitCommas, ← Grouping.eq_of_isTop top]
            exact first
          · exact others other further
      | false =>
          obtain ⟨part, parts, split, first, others⟩ := ih (grouping.step c)
          refine ⟨c :: part, parts, ?_, ?_, others⟩
          · rw [splitCommasFrom_other separates, split]
            rfl
          · rw [splitCommasFrom_other separates, first]
            rfl

/-- A comma outside of strings and brackets separates. -/
theorem splitCommasFrom_separated {before : Text}
    (top : (grouping.after before).isTop = true) (after : Text) :
    splitCommasFrom grouping (before ++ ',' :: after) =
      splitCommasFrom grouping before ++ splitCommas after := by
  induction before generalizing grouping with
  | nil =>
      have here : grouping.isTop = true := top
      rw [List.nil_append, splitCommasFrom_comma here,
        Grouping.eq_of_isTop here]
      rfl
  | cons c rest ih =>
      rw [List.cons_append]
      cases separates : c == ',' && grouping.isTop with
      | true =>
          obtain ⟨rfl, here⟩ := separating separates
          rw [Grouping.after_comma here] at top
          rw [splitCommasFrom_comma here, splitCommasFrom_comma here, ih top]
          rfl
      | false =>
          obtain ⟨part, parts, split, -⟩ :=
            splitCommasFrom_parts (grouping.step c) rest
          rw [splitCommasFrom_other separates, splitCommasFrom_other separates,
            @ih (grouping.step c) top, split]
          rfl

/-- Any other comma is inside of a part. -/
theorem splitCommasFrom_enclosed {before : Text}
    (inside : (grouping.after before).isTop = false) (after : Text) :
    ∃ front head tail back,
      splitCommasFrom grouping (before ++ ',' :: after) =
        front ++ (head ++ ',' :: tail) :: back ∧
        splitCommasFrom grouping before = front ++ [head] ∧
        [','].intercalate (tail :: back) = after := by
  induction before generalizing grouping with
  | nil =>
      have other : (',' == ',' && grouping.isTop) = false := inside
      obtain ⟨part, parts, split, -⟩ :=
        splitCommasFrom_parts (grouping.step ',') after
      refine ⟨[], [], part, parts, ?_, rfl, ?_⟩
      · rw [List.nil_append, splitCommasFrom_other other, split]
        rfl
      · rw [← split, intercalate_splitCommasFrom]
  | cons c rest ih =>
      rw [List.cons_append]
      cases separates : c == ',' && grouping.isTop with
      | true =>
          obtain ⟨rfl, top⟩ := separating separates
          rw [Grouping.after_comma top] at inside
          obtain ⟨front, head, tail, back, whole, left, right⟩ := ih inside
          refine ⟨[] :: front, head, tail, back, ?_, ?_, right⟩
          · rw [splitCommasFrom_comma top, whole]
            rfl
          · rw [splitCommasFrom_comma top, left]
            rfl
      | false =>
          obtain ⟨front, head, tail, back, whole, left, right⟩ :=
            @ih (grouping.step c) inside
          rw [splitCommasFrom_other separates,
            splitCommasFrom_other separates, whole, left]
          cases front with
          | nil => exact ⟨[], c :: head, tail, back, rfl, rfl, right⟩
          | cons part parts =>
              exact ⟨(c :: part) :: parts, head, tail, back, rfl, rfl, right⟩

private theorem splitCommas_intercalate {parts : List Text}
    (filled : parts ≠ []) (single : ∀ part ∈ parts, part.splitCommas = [part])
    (closed : ∀ part ∈ parts, ¬ Unclosed part) :
    splitCommas ([','].intercalate parts) = parts := by
  induction parts with
  | nil => contradiction
  | cons part others ih =>
      have first := single part List.mem_cons_self
      cases others with
      | nil => rw [List.intercalate_singleton, first]
      | cons next others =>
          have top :=
            (Grouping.isTop_after_iff part).mpr (closed part List.mem_cons_self)
          have later :=
            ih (by simp) (fun other member => single other (.tail _ member))
            (fun other member => closed other (.tail _ member))
          rw [List.intercalate_cons_cons, List.append_assoc,
            List.singleton_append, splitCommas,
            splitCommasFrom_separated top, later]
          rw [splitCommas] at first
          rw [first]
          rfl

/-- Splitting at commas is undone by joining; it stops at the parts that cannot
be split, and a comma separates exactly when it is not in a string or
bracket. -/
theorem splitCommas_exact (text : Text) :
    [','].intercalate text.splitCommas = text ∧
    (∀ part ∈ text.splitCommas, part.splitCommas = [part]) ∧
    (∀ before after : Text, text = before ++ ',' :: after →
      (¬ Unclosed before →
        text.splitCommas = before.splitCommas ++ after.splitCommas) ∧
      (Unclosed before → ∃ front head tail back,
        text.splitCommas = front ++ (head ++ ',' :: tail) :: back ∧
          [','].intercalate (front ++ [head]) = before ∧
          [','].intercalate (tail :: back) = after)) ∧
    ∀ parts : List Text, parts ≠ [] →
      (∀ part ∈ parts, part.splitCommas = [part]) →
      (∀ part ∈ parts, ¬ Unclosed part) →
      splitCommas ([','].intercalate parts) = parts := by
  refine ⟨intercalate_splitCommasFrom {} text, ?_, ?_, ?_⟩
  · obtain ⟨part, parts, split, first, others⟩ := splitCommasFrom_parts {} text
    intro other member
    rw [splitCommas, split] at member
    rcases List.mem_cons.mp member with rfl | further
    · exact first
    · exact others other further
  · rintro before after rfl
    constructor
    · intro outside
      exact splitCommasFrom_separated
        ((Grouping.isTop_after_iff before).mpr outside) after
    · intro unclosed
      have inside : (Grouping.after {} before).isTop = false := by
        rw [← Bool.not_eq_true, Grouping.isTop_after_iff, not_not]
        exact unclosed
      obtain ⟨front, head, tail, back, whole, left, right⟩ :=
        splitCommasFrom_enclosed inside after
      refine ⟨front, head, tail, back, whole, ?_, right⟩
      rw [← left, intercalate_splitCommasFrom]
  · intro parts filled single closed
    exact splitCommas_intercalate filled single closed

end Text

end Stylesheet
