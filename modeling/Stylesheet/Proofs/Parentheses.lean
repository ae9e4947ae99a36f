import Mathlib.Data.List.Infix
import Stylesheet.Proofs.Bracing
import Stylesheet.Proofs.FunctionCalls

/-!
# Parentheses of calls

The parenthesis that closes a call is found by counting parentheses outside of
strings.  `netParens` is this count over any text.  The text between the
parentheses of a call closes every string and parenthesis that it opens, and
closes no parenthesis that it did not open; and every text with these two
properties can stand there.
-/

namespace Stylesheet

/-- What a character adds to the number of open parentheses. -/
def parenWeight (quoting : Quoting) (c : Char) : Int :=
  if quoting.isOutside then
    if c = '(' then 1
    else if c = ')' then -1
    else 0
  else 0

/-- The number of parentheses that a text opens outside of strings, less the
number of those that it closes. -/
def netParens (quoting : Quoting) : Text → Int
  | [] => 0
  | c :: rest => parenWeight quoting c + netParens (quoting.step c) rest

@[simp] theorem netParens_nil (quoting : Quoting) : netParens quoting [] = 0 :=
  rfl

@[simp] theorem netParens_cons (quoting : Quoting) (c : Char) (rest : Text) :
    netParens quoting (c :: rest) =
      parenWeight quoting c + netParens (quoting.step c) rest :=
  rfl

theorem netParens_append (quoting : Quoting) (first second : Text) :
    netParens quoting (first ++ second) =
      netParens quoting first + netParens (quoting.after first) second := by
  induction first generalizing quoting with
  | nil => simp
  | cons c rest ih =>
      rw [List.cons_append, netParens_cons, netParens_cons,
        Quoting.after_cons, ih]
      omega

/-- Where `depth` parentheses are open, the text closes no more than these and
its own. -/
def Covered (depth : Int) (quoting : Quoting) (text : Text) : Prop :=
  ∀ front, front <+: text → 0 ≤ depth + netParens quoting front

theorem covered_nil {depth : Int} {quoting : Quoting} :
    Covered depth quoting [] ↔ 0 ≤ depth := by
  simp [Covered]

theorem covered_cons {depth : Int} {quoting : Quoting} {c : Char}
    {rest : Text} :
    Covered depth quoting (c :: rest) ↔
      0 ≤ depth ∧
        Covered (depth + parenWeight quoting c) (quoting.step c) rest := by
  constructor
  · intro covered
    constructor
    · simpa using covered [] (List.nil_prefix)
    · intro front part
      have whole := covered (c :: front) ((List.prefix_cons_inj c).mpr part)
      rw [netParens_cons] at whole
      omega
  · rintro ⟨positive, covered⟩ front part
    rcases List.prefix_cons_iff.mp part with rfl | ⟨tail, rfl, within⟩
    · simpa using positive
    · have later := covered tail within
      rw [netParens_cons]
      omega

theorem covered_append {depth : Int} {quoting : Quoting} {first second : Text} :
    Covered depth quoting (first ++ second) ↔
      Covered depth quoting first ∧
        Covered (depth + netParens quoting first)
          (quoting.after first) second := by
  induction first generalizing depth quoting with
  | nil =>
      rw [covered_nil]
      simp only [List.nil_append, netParens_nil,
        Quoting.after_nil, Int.add_zero]
      constructor
      · intro covered
        exact ⟨by simpa using covered [] List.nil_prefix, covered⟩
      · exact And.right
  | cons c rest ih =>
      rw [List.cons_append, covered_cons, covered_cons, ih, netParens_cons,
        Quoting.after_cons, and_assoc, Int.add_assoc]

theorem Covered.mono {depth more : Int} {quoting : Quoting} {text : Text}
    (covered : Covered depth quoting text) (below : depth ≤ more) :
    Covered more quoting text := by
  intro front part
  have enough := covered front part
  omega

/-- Only the last open parenthesis can be closed where no other one is open. -/
theorem closing_of_weight {depth : Nat} {quoting : Quoting} {c : Char}
    (negative : ¬ 0 ≤ (depth : Int) + parenWeight quoting c) :
    depth = 0 ∧ quoting = .outside ∧ c = ')' := by
  unfold parenWeight at negative
  split at negative
  · rename_i outside
    split at negative
    · omega
    · split at negative
      · rename_i closing
        exact ⟨by omega, Quoting.eq_outside outside, closing⟩
      · omega
  · omega

theorem spanCall_closing (rest : Text) :
    spanCall 0 .outside (')' :: rest) = some ([], rest) :=
  rfl

/-- A character that does not end the call belongs to it. -/
theorem spanCall_cons {depth : Nat} {quoting : Quoting} {c : Char} (rest : Text)
    (inside : 0 ≤ (depth : Int) + parenWeight quoting c) :
    spanCall depth quoting (c :: rest) =
      (spanCall (depth + parenWeight quoting c).toNat (quoting.step c) rest).map
        (prepend c) := by
  unfold parenWeight at inside ⊢
  rw [spanCall]
  cases quoting with
  | outside =>
      by_cases opening : c = '('
      · subst opening
        rfl
      · by_cases closing : c = ')'
        · subst closing
          have positive : depth ≠ 0 := by
            rintro rfl
            simp [Quoting.isOutside] at inside
          have less : ((depth : Int) + -1).toNat = depth - 1 := by omega
          simp [Quoting.isOutside, positive, less, Quoting.step, isQuote]
        · simp [Quoting.isOutside, opening, closing]
  | inside mark => simp [Quoting.isOutside]
  | escaped mark => simp [Quoting.isOutside]

/-- A call ends with the first parenthesis that closes more than was opened
since. -/
theorem spanCall_eq_some {depth : Nat} {quoting : Quoting}
    {text inner after : Text} :
    spanCall depth quoting text = some (inner, after) ↔
      text = inner ++ ')' :: after ∧ quoting.after inner = .outside ∧
        depth + netParens quoting inner = 0 ∧ Covered depth quoting inner := by
  induction text generalizing depth quoting inner with
  | nil => simp [spanCall]
  | cons c rest ih =>
      by_cases inside : 0 ≤ (depth : Int) + parenWeight quoting c
      · rw [spanCall_cons rest inside, Option.map_eq_some_iff]
        have moved : (((depth : Int) + parenWeight quoting c).toNat : Int) =
            depth + parenWeight quoting c := Int.toNat_of_nonneg inside
        constructor
        · rintro ⟨⟨front, behind⟩, found, same⟩
          obtain ⟨rfl, rfl⟩ : c :: front = inner ∧ behind = after := by
            simpa [prepend] using same
          obtain ⟨rfl, outside, net, covered⟩ := ih.mp found
          rw [moved] at net covered
          refine ⟨rfl, outside, ?_, covered_cons.mpr ⟨by omega, covered⟩⟩
          rw [netParens_cons]
          omega
        · rintro ⟨shape, outside, net, covered⟩
          cases inner with
          | nil =>
              -- The call would end right here, where the count allows no end.
              obtain ⟨rfl, rfl⟩ := List.cons.inj shape
              obtain rfl : quoting = .outside := outside
              rw [netParens_nil] at net
              simp [parenWeight, Quoting.isOutside] at inside
              omega
          | cons first inner =>
              obtain ⟨rfl, rfl⟩ := List.cons.inj shape
              rw [netParens_cons] at net
              refine ⟨(inner, after), ih.mpr ⟨rfl, outside, ?_, ?_⟩, rfl⟩
              · rw [moved]
                omega
              · rw [moved]
                exact (covered_cons.mp covered).2
      · obtain ⟨rfl, rfl, rfl⟩ := closing_of_weight inside
        rw [spanCall_closing]
        constructor
        · intro found
          obtain ⟨rfl, rfl⟩ : [] = inner ∧ rest = after := by simpa using found
          exact ⟨rfl, rfl, rfl, covered_nil.mpr (Int.le_refl _)⟩
        · rintro ⟨shape, -, -, covered⟩
          cases inner with
          | nil =>
              obtain ⟨-, rfl⟩ := List.cons.inj shape
              rfl
          | cons first inner =>
              obtain ⟨rfl, -⟩ := List.cons.inj shape
              have negative := covered [')'] (by simp)
              simp [parenWeight, Quoting.isOutside] at negative

/-- A text that can stand between the parentheses of a call. -/
structure Enclosed (text : Text) : Prop where
  shut : Shut text
  net : netParens .outside text = 0
  covered : Covered 0 .outside text

theorem spanCall_eq_some_enclosed {text inner after : Text} :
    spanCall 0 .outside text = some (inner, after) ↔
      text = inner ++ ')' :: after ∧ Enclosed inner := by
  rw [spanCall_eq_some]
  constructor
  · rintro ⟨shape, shut, net, covered⟩
    exact ⟨shape, shut, by simpa using net, covered⟩
  · rintro ⟨shape, shut, net, covered⟩
    exact ⟨shape, shut, by simpa using net, covered⟩

theorem spanCall_enclosed {inner : Text} (enclosed : Enclosed inner)
    (after : Text) :
    spanCall 0 .outside (inner ++ ')' :: after) = some (inner, after) :=
  spanCall_eq_some_enclosed.mpr ⟨rfl, enclosed⟩

namespace Enclosed

variable {first second inner front old new back : Text}

theorem append (left : Enclosed first) (right : Enclosed second) :
    Enclosed (first ++ second) := by
  refine
    ⟨left.shut.append right.shut, ?_, covered_append.mpr ⟨left.covered, ?_⟩⟩
  · rw [netParens_append, left.net, left.shut, right.net]
    rfl
  · rw [left.net, left.shut]
    exact right.covered

/-- Characters that are neither quotes nor parentheses change nothing. -/
theorem of_plain {text : Text}
    (plain : ∀ c ∈ text, isQuote c = false ∧ c ≠ '(' ∧ c ≠ ')') :
    Enclosed text := by
  induction text with
  | nil => exact ⟨shut_nil, rfl, covered_nil.mpr (Int.le_refl _)⟩
  | cons c rest ih =>
      obtain ⟨unquoted, opening, closing⟩ := plain c (by simp)
      have others := ih fun other member => plain other (by simp [member])
      have weight : parenWeight .outside c = 0 := by
        simp [parenWeight, opening, closing]
      have single : Enclosed [c] := by
        refine
          ⟨shut_singleton unquoted, ?_, covered_cons.mpr ⟨Int.le_refl _, ?_⟩⟩
        · rw [netParens_cons, weight]
          rfl
        · rw [weight]
          exact covered_nil.mpr (Int.le_refl _)
      exact single.append others

theorem group (enclosed : Enclosed inner) :
    Enclosed ('(' :: (inner ++ [')'])) := by
  have opened : parenWeight .outside '(' = 1 := rfl
  have closed : parenWeight .outside ')' = -1 := rfl
  have outside : Quoting.outside.step '(' = .outside := rfl
  refine ⟨?_, ?_, covered_cons.mpr ⟨Int.le_refl _, covered_append.mpr ⟨?_, ?_⟩⟩⟩
  · rw [Shut, Quoting.after_cons, outside, Quoting.after_append, enclosed.shut]
    rfl
  · rw [netParens_cons, outside, netParens_append, enclosed.net, enclosed.shut,
      netParens_cons, opened, closed]
    rfl
  · rw [outside]
    exact enclosed.covered.mono (by decide)
  · rw [outside, enclosed.net, enclosed.shut, covered_cons, covered_nil,
      opened, closed]
    decide

/-- One enclosed part can stand for another outside of strings. -/
theorem replace (whole : Enclosed (front ++ (old ++ back))) (shut : Shut front)
    (first : Enclosed old) (second : Enclosed new) :
    Enclosed (front ++ (new ++ back)) := by
  have counted := whole.net
  have covered := whole.covered
  rw [netParens_append, netParens_append, shut, first.net, first.shut]
    at counted
  rw [covered_append, covered_append, shut, first.net, first.shut] at covered
  refine ⟨?_, ?_, ?_⟩
  · exact shut.append
      (second.shut.append ((whole.shut.tail shut).tail first.shut))
  · rw [netParens_append, netParens_append, shut, second.net, second.shut]
    exact counted
  · rw [covered_append, covered_append, shut, second.net, second.shut]
    refine ⟨covered.1, ?_, covered.2.2⟩
    apply second.covered.mono
    rw [Int.zero_add]
    simpa using covered.1 front (List.prefix_refl front)

end Enclosed

end Stylesheet
