import Stylesheet.Proofs.ClosedValues
import Stylesheet.Proofs.Parentheses
import Stylesheet.Proofs.PlainText

/-!
# Resolving calls twice

A text in which the calls have been resolved is left alone when they are
resolved again.  The names of calls are read off the output, so the output
itself has to be such that a second reading finds in it what the first one left
there: characters that open no call, and calls that are kept with arguments that
are kept.
-/

namespace Stylesheet

variable {functions : Functions} {quoting : Quoting} {out text : Text}

namespace Functions

theorem startsCall_spec {c : Char} (starts : startsCall quoting out c = true) :
    quoting = .outside ∧ c = '(' := by
  simp only [startsCall, Bool.and_eq_true, beq_iff_eq] at starts
  exact ⟨Quoting.eq_outside starts.1.1, starts.1.2⟩

/-- The output `out`, which is held in reverse, is made of characters that open
no call and of calls that are kept as they are. -/
inductive Stable (functions : Functions) : Quoting → Text → Prop where
  | nil : Stable functions .outside []
  | char {quoting : Quoting} {out : Text} {c : Char}
      (before : Stable functions quoting out)
      (plain : startsCall quoting out c = false) :
        Stable functions (quoting.step c) (c :: out)
  | call {out inner : Text} {call : Resolved}
      (before : Stable functions .outside out)
      (starts : startsCall .outside out '(' = true) (enclosed : Enclosed inner)
      (called : functions.call (nameAfter out) inner = .ok call)
      (same : call.value = kept (nameAfter out) inner) :
      Stable functions .outside (')' :: (inner.reverse ++ '(' :: out))

/-- A kept call stands behind the output as it is written. -/
theorem kept_reverse (out inner : Text) :
    (kept (nameAfter out) inner).reverse ++ out.drop (nameAfter out).length =
      ')' :: (inner.reverse ++ '(' :: out) := by
  have split := congrArg List.reverse (reverse_eq_nameAfter out)
  rw [List.reverse_reverse, List.reverse_append, List.reverse_reverse] at split
  conv_rhs => rw [split]
  simp [kept]

/-- Reading a stable output again gives back the output, and goes on behind
it. -/
theorem Stable.resolve (stable : functions.Stable quoting out) (text : Text) :
    (functions.resolve (out.reverse ++ text)).map Resolved.value =
      (functions.resolveAfter quoting out text).map Resolved.value := by
  induction stable generalizing text with
  | nil => rfl
  | @char quoting out c before plain ih =>
      rw [List.reverse_cons, List.append_assoc, List.singleton_append, ih,
        resolveAfter_char _ plain]
  | @call out inner call before starts enclosed called same ih =>
      have shape : (')' :: (inner.reverse ++ '(' :: out)).reverse ++ text =
          out.reverse ++ '(' :: (inner ++ ')' :: text) := by simp
      rw [shape, ih,
        resolveAfter_call _ starts (spanCall_enclosed enclosed text), called]
      dsimp only
      rw [resolveBehind, same, kept_reverse]
      cases functions.resolveAfter .outside
        (')' :: (inner.reverse ++ '(' :: out)) text with
      | ok following => rfl
      | error error => rfl

theorem Stable.resolve_self (stable : functions.Stable quoting out) :
    ∃ resolved, functions.resolve out.reverse = .ok resolved ∧
      resolved.value = out.reverse := by
  have again := stable.resolve []
  rw [List.append_nil, resolveAfter_nil] at again
  cases found : functions.resolve out.reverse with
  | ok resolved =>
      rw [found] at again
      exact ⟨resolved, rfl, Except.ok.inj again⟩
  | error error =>
      rw [found] at again
      contradiction

end Functions

/-- The mark of a string is a quote. -/
def Quoting.Marked : Quoting → Prop
  | .outside => True
  | .inside mark | .escaped mark => isQuote mark = true

theorem Quoting.Marked.step {quoting : Quoting}
    (marked : quoting.Marked) (c : Char) :
    (quoting.step c).Marked := by
  cases quoting with
  | outside =>
      rw [Quoting.step]
      split
      · rename_i quote
        exact quote
      · trivial
  | inside mark =>
      rw [Quoting.step]
      split
      · exact marked
      · split
        · trivial
        · exact marked
  | escaped mark => exact marked

theorem isQuote_of_name {c : Char} (named : isNameChar c = true) :
    isQuote c = false := by
  rw [Bool.eq_false_iff]
  intro quote
  simp only [isQuote, Bool.or_eq_true, beq_iff_eq] at quote
  rcases quote with rfl | rfl
  · exact absurd named (by decide)
  · exact absurd named (by decide)

/-- A string does not end with a character of a name. -/
theorem Quoting.Marked.outside_of_name {quoting : Quoting} {c : Char}
    (marked : quoting.Marked) (named : isNameChar c = true)
    (outside : quoting.step c = .outside) : quoting = .outside := by
  cases quoting with
  | outside => rfl
  | inside mark =>
      have other : c ≠ mark := by
        rintro rfl
        have quote : isQuote c = true := marked
        rw [isQuote_of_name named] at quote
        contradiction
      rw [Quoting.step] at outside
      split at outside
      · contradiction
      · rw [if_neg (by simpa using other)] at outside
        contradiction
  | escaped mark => contradiction

namespace Functions

theorem Stable.marked (stable : functions.Stable quoting out) :
    quoting.Marked := by
  induction stable with
  | nil => trivial
  | char before plain ih => exact ih.step _
  | call before starts enclosed called same ih => trivial

private theorem Stable.after_reverse (stable : functions.Stable quoting out) :
    Quoting.outside.after out.reverse = quoting := by
  induction stable with
  | nil => rfl
  | char before plain ih =>
      rw [List.reverse_cons, Quoting.after_append, ih]
      rfl
  | @call out inner call before starts enclosed called same ih =>
      have shape : (')' :: (inner.reverse ++ '(' :: out)).reverse =
          out.reverse ++ ('(' :: (inner ++ [')'])) := by simp
      rw [shape, Quoting.after_append, ih, Quoting.after_cons,
        Quoting.step_outside (by decide), Quoting.after_append, enclosed.shut]
      rfl

private theorem Stable.of_name {c : Char}
    (stable : functions.Stable quoting (c :: out)) (named : isNameChar c = true)
    (outside : quoting = .outside) :
    functions.Stable .outside out := by
  cases stable with
  | char before plain =>
      rwa [before.marked.outside_of_name named outside] at before
  | call => exact absurd named (by decide)

/-- What stands in front of the name at the end of a stable output is stable. -/
theorem Stable.dropName (stable : functions.Stable .outside out) :
    functions.Stable .outside (out.drop (nameAfter out).length) := by
  rw [nameAfter, List.length_reverse]
  induction out with
  | nil => exact stable
  | cons c out ih =>
      cases named : isNameChar c with
      | false =>
          rw [List.takeWhile_cons_of_neg (by simp [named])]
          exact stable
      | true =>
          rw [List.takeWhile_cons_of_pos named, List.length_cons,
            List.drop_succ_cons]
          exact ih (stable.of_name named rfl)

/-- Figures open no call. -/
theorem Stable.figures (stable : functions.Stable .outside out)
    (figures : Figures text) :
    functions.Stable .outside (text.reverse ++ out) := by
  induction text generalizing out with
  | nil => exact stable
  | cons c rest ih =>
      obtain ⟨unquoted, opening, -⟩ := figures.plain c (by simp)
      have plain : startsCall .outside out c = false := by
        simp [startsCall, opening]
      have next := stable.char plain
      rw [Quoting.step_outside unquoted] at next
      rw [List.reverse_cons, List.append_assoc, List.singleton_append]
      exact ih next (figures_cons.mp figures).2

theorem isNameChar_nameAfter (out : Text) : ∀ c ∈ nameAfter out,
    isNameChar c = true := by
  intro c member
  rw [nameAfter, List.mem_reverse] at member
  exact List.all_eq_true.mp List.all_takeWhile c member

/-- No name goes on behind what stands in front of it. -/
theorem head_dropName (out : Text) :
    ∀ c, (out.drop (nameAfter out).length).head? = some c →
      isNameChar c = false := by
  intro c first
  rw [nameAfter, List.length_reverse] at first
  induction out with
  | nil => contradiction
  | cons d out ih =>
      cases named : isNameChar d with
      | false =>
          rw [List.takeWhile_cons_of_neg (by simp [named])] at first
          obtain rfl : d = c := by simpa using first
          exact named
      | true =>
          rw [List.takeWhile_cons_of_pos named, List.length_cons,
            List.drop_succ_cons] at first
          exact ih first

theorem enclosed_kept {name inner : Text}
    (named : ∀ c ∈ name, isNameChar c = true) (enclosed : Enclosed inner) :
    Enclosed (kept name inner) := by
  have plain : Enclosed name := by
    apply Enclosed.of_plain
    intro c member
    have letter := named c member
    refine ⟨isQuote_of_name letter, ?_, ?_⟩
    · rintro rfl
      contradiction
    · rintro rfl
      contradiction
  have whole := plain.append enclosed.group
  simpa [kept] using whole

private theorem enclosed_result {value : Text} (result : Builtin.Result value) :
    Enclosed value := by
  cases result with
  | figures figures => exact .of_plain figures.plain
  | call fronted apart named arguments =>
      apply Enclosed.append (.of_plain fronted.plain)
      apply enclosed_kept
      · rcases named with rfl | rfl
        · decide
        · decide
      · exact .of_plain arguments.plain

/-- The call of a function that is neither builtin nor `url` is kept with its
resolved arguments. -/
theorem Keeping.call_kept (keeping : functions.Keeping) {name inner : Text}
    {resolved : Resolved} (other : Builtin.ofName? name = none)
    (transparent : Text.sameLetters name "url".toList = false)
    (found : functions.resolve inner = .ok resolved) :
    functions.call name inner = .ok {
      value := kept name resolved.value
      unknown := functions.reported name resolved.unknown } := by
  rw [call, transparent, found]
  exact keeping.finish_kept other resolved

/-- The result of a builtin function is stable behind anything that does not end
in a name. -/
theorem Keeping.stable_result (keeping : functions.Keeping) {value : Text}
    (stable : functions.Stable .outside out)
    (apart : ∀ c, out.head? = some c → isNameChar c = false)
    (result : Builtin.Result value) :
    functions.Stable .outside (value.reverse ++ out) := by
  cases result with
  | figures figures => exact stable.figures figures
  | @call front name inner fronted behind named arguments =>
      have letters : Figures name ∧ (∀ c ∈ name, isNameChar c = true) ∧
          name.any Char.isAlpha = true ∧ Builtin.ofName? name = none ∧
          Text.sameLetters name "url".toList = false := by
        rcases named with rfl | rfl
        · decide
        · decide
      obtain ⟨figures, nameChars, lettered, other, transparent⟩ := letters
      have ends : ∀ c, (front.reverse ++ out).head? = some c →
          isNameChar c = false := by
        intro c first
        rw [List.head?_append, List.head?_reverse] at first
        cases last : front.getLast? with
        | some d =>
            rw [last] at first
            exact behind c (by simpa [last] using first)
        | none =>
            rw [last] at first
            exact apart c (by simpa using first)
      have run : (name.reverse ++ (front.reverse ++ out)).takeWhile isNameChar =
          name.reverse := by
        apply takeWhile_append
        · intro c member
          exact nameChars c (List.mem_reverse.mp member)
        · exact ends
      have called :
          nameAfter (name.reverse ++ (front.reverse ++ out)) = name := by
        rw [nameAfter, run, List.reverse_reverse]
      have inside := functions.resolve_plain fun c member =>
        (arguments.plain c member).2.1
      have result := Stable.call ((stable.figures fronted).figures figures)
        (by simp [startsCall, run, Quoting.isOutside, lettered])
          (.of_plain arguments.plain)
        (called.symm ▸ keeping.call_kept other transparent inside)
          (by rw [called])
      simpa [kept] using result

/-- The result of a call is stable in the place of its name, if its resolved
arguments are. -/
theorem Keeping.stable_call (keeping : functions.Keeping) {inner : Text}
    {call : Resolved} (stable : functions.Stable .outside out)
    (starts : startsCall .outside out '(' = true) (enclosed : Enclosed inner)
    (resolving : ∀ {resolved : Resolved},
      functions.resolve inner = .ok resolved →
      (∃ quoting, functions.Stable quoting resolved.value.reverse) ∧
        Enclosed resolved.value)
    (called : functions.call (nameAfter out) inner = .ok call) :
    functions.Stable .outside
      (call.value.reverse ++ out.drop (nameAfter out).length) ∧
      Enclosed call.value := by
  have named := isNameChar_nameAfter out
  cases transparent : Text.sameLetters (nameAfter out) "url".toList with
  | true =>
      have value : call.value = kept (nameAfter out) inner := by
        rw [Functions.call, transparent, if_pos rfl] at called
        obtain rfl : _ = call := Except.ok.inj called
        rfl
      rw [value, kept_reverse]
      exact ⟨.call stable starts enclosed called value,
        enclosed_kept named enclosed⟩
  | false =>
      cases found : functions.resolve inner with
      | error error =>
          rw [Functions.call, transparent, found] at called
          contradiction
      | ok resolved =>
          obtain ⟨⟨quoting, again⟩, closed⟩ := resolving found
          cases other : Builtin.ofName? (nameAfter out) with
          | some function =>
              rw [Functions.call, transparent, found] at called
              have finished : functions.finish (nameAfter out) resolved =
                  .ok call := called
              rw [keeping.finish_builtin other] at finished
              split at finished
              · rename_i value applied
                obtain rfl : _ = call := Except.ok.inj finished
                have result := function.yields_apply _ value applied
                exact
                  ⟨keeping.stable_result stable.dropName
                    (head_dropName out) result,
                  enclosed_result result⟩
              · contradiction
          | none =>
              rw [keeping.call_kept other transparent found] at called
              obtain rfl : _ = call := Except.ok.inj called
              -- The kept arguments are resolved to themselves, so the call is
              -- kept once more.
              obtain ⟨twice, foundAgain, same⟩ := again.resolve_self
              rw [List.reverse_reverse] at foundAgain same
              have calledAgain := keeping.call_kept other transparent foundAgain
              rw [same] at calledAgain
              rw [kept_reverse]
              exact ⟨.call stable starts closed calledAgain rfl,
                enclosed_kept named closed⟩

private theorem Keeping.stable_resolveAfter (keeping : functions.Keeping)
    (quoting : Quoting) (out text : Text)
    (stable : functions.Stable quoting out) {resolved : Resolved}
    (found : functions.resolveAfter quoting out text = .ok resolved) :
    (∃ last, functions.Stable last resolved.value.reverse) ∧
      (Enclosed (out.reverse ++ text) → Enclosed resolved.value) := by
  induction quoting, out, text using resolving_induction
    generalizing resolved with
  | nil quoting out =>
      rw [resolveAfter_nil] at found
      obtain rfl : _ = resolved := Except.ok.inj found
      rw [List.reverse_reverse, List.append_nil]
      exact ⟨⟨quoting, stable⟩, id⟩
  | char quoting out c rest plain ih =>
      rw [resolveAfter_char _ plain] at found
      have later := ih (stable.char plain) found
      rwa [List.reverse_cons, List.append_assoc, List.singleton_append] at later
  | lost quoting out c rest starts unclosed =>
      rw [resolveAfter_open _ starts unclosed] at found
      contradiction
  | call quoting out c rest inner after starts spanned within behind =>
      obtain ⟨rfl, rfl⟩ := startsCall_spec starts
      obtain ⟨call, following, called, done, value⟩ :=
        resolveAfter_call_ok starts spanned found
      obtain ⟨rfl, enclosed⟩ := spanCall_eq_some_enclosed.mp spanned
      have arguments {resolved : Resolved}
          (found : functions.resolve inner = .ok resolved) :
          (∃ last, functions.Stable last resolved.value.reverse) ∧
            Enclosed resolved.value := by
        obtain ⟨again, closed⟩ := within .nil found
        exact ⟨again, closed enclosed⟩
      obtain ⟨next, closed⟩ :=
        keeping.stable_call stable starts enclosed arguments called
      obtain ⟨again, whole⟩ := behind _ next done
      rw [value]
      refine ⟨again, fun enclosing => whole ?_⟩
      have front := stable.dropName.after_reverse
      rw [reverse_eq_nameAfter] at enclosing
      rw [List.reverse_append, List.reverse_reverse, List.append_assoc]
      have before : Enclosed (kept (nameAfter out) inner) :=
        enclosed_kept (isNameChar_nameAfter out) enclosed
      refine Enclosed.replace ?_ front before closed
      simpa [kept] using enclosing

/-- Resolving the calls of a text again changes nothing: what was kept is kept,
and what a builtin function returned is left as it is. -/
theorem resolve_resolved (keeping : functions.Keeping) {text : Text}
    {resolved : Resolved} (found : functions.resolve text = .ok resolved) :
    ∃ again, functions.resolve resolved.value = .ok again ∧
      again.value = resolved.value := by
  obtain ⟨⟨quoting, stable⟩, -⟩ :=
    keeping.stable_resolveAfter .outside [] text .nil found
  obtain ⟨again, foundAgain, same⟩ := stable.resolve_self
  rw [List.reverse_reverse] at foundAgain same
  exact ⟨again, foundAgain, same⟩

/-- Calls in calls, in strings and in an address, and parentheses that belong to
no call. -/
theorem resolve_resolved_nested :
    Keeping {} ∧ ∃ resolved again,
      resolve {} "a(rgb(1), 'x(' (2))(b) -3(4) url(ceil(c) ')')".toList =
        .ok resolved ∧
        resolved.unknown = ["a".toList] ∧
        resolve {} resolved.value = .ok again ∧
        again.value = resolved.value := by
  have keeping : Keeping {} := ⟨rfl, rfl, rfl⟩
  have computed :
      (resolve {}
        "a(rgb(1), 'x(' (2))(b) -3(4) url(ceil(c) ')')".toList).toOption.map
      Resolved.unknown = some ["a".toList] := by
    decide +kernel
  cases found :
    resolve {} "a(rgb(1), 'x(' (2))(b) -3(4) url(ceil(c) ')')".toList with
  | error error =>
      rw [found] at computed
      contradiction
  | ok resolved =>
      rw [found] at computed
      obtain ⟨again, foundAgain, same⟩ := resolve_resolved keeping found
      exact ⟨keeping, resolved, again, rfl, Option.some.inj computed,
        foundAgain, same⟩

end Functions

end Stylesheet
