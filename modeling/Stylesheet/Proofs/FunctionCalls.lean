import Stylesheet.Function.Call

/-!
# Resolving calls

One equation for each way in which the resolution of a text goes on, and the
induction that follows them: over the text between the parentheses of a call and
over the text after it.
-/

namespace Stylesheet

namespace Functions

/-- A parenthesis after the output `out` opens a call. -/
def startsCall (quoting : Quoting) (out : Text) (c : Char) : Bool :=
  quoting.isOutside && c == '(' && (out.takeWhile isNameChar).any Char.isAlpha

/-- The name of a call after the output `out`. -/
def nameAfter (out : Text) : Text :=
  (out.takeWhile isNameChar).reverse

/-- The result of a call with the text between its parentheses. -/
def call (functions : Functions) (name inner : Text) : Except Error Resolved :=
  if Text.sameLetters name "url".toList then .ok { value := kept name inner }
  else
    match functions.resolve inner with
    | .ok resolved => functions.finish name resolved
    | .error error => .error error

/-- A resolution goes on after a call. -/
def resolveBehind (functions : Functions) (out after : Text) (call : Resolved) :
    Except Error Resolved :=
  match functions.resolveAfter .outside
    (call.value.reverse ++ out.drop (nameAfter out).length)
      after with
  | .ok following =>
      .ok { following with unknown := call.unknown ++ following.unknown }
  | .error error => .error error

variable (functions : Functions) {quoting : Quoting}
  {out rest inner after : Text} {c : Char}

theorem resolveAfter_nil (quoting : Quoting) (out : Text) :
    functions.resolveAfter quoting out [] = .ok { value := out.reverse } := by
  rw [resolveAfter]

theorem resolveAfter_char (plain : startsCall quoting out c = false) :
    functions.resolveAfter quoting out (c :: rest) =
      functions.resolveAfter (quoting.step c) (c :: out) rest := by
  unfold startsCall at plain
  rw [resolveAfter, plain]
  rfl

theorem resolveAfter_open (starts : startsCall quoting out c = true)
    (lost : spanCall 0 .outside rest = none) :
    functions.resolveAfter quoting out (c :: rest) =
      .error (.form (.callOpen (c :: rest))) := by
  unfold startsCall at starts
  rw [resolveAfter, starts]
  simp only [if_true]
  split
  · rfl
  · rename_i found
    rw [lost] at found
    simp at found

theorem resolveAfter_call (starts : startsCall quoting out c = true)
    (found : spanCall 0 .outside rest = some (inner, after)) :
    functions.resolveAfter quoting out (c :: rest) =
      match functions.call (nameAfter out) inner with
      | .ok call => functions.resolveBehind out after call
      | .error error => .error error := by
  unfold startsCall at starts
  rw [resolveAfter, starts]
  simp only [if_true]
  split
  · rename_i lost
    rw [lost] at found
    simp at found
  · rename_i first second same
    rw [found] at same
    obtain ⟨rfl, rfl⟩ : inner = first ∧ after = second := by simpa using same
    unfold call resolveBehind nameAfter resolve
    generalize
      (if Text.sameLetters (out.takeWhile isNameChar).reverse "url".toList then
      .ok { value := kept (out.takeWhile isNameChar).reverse inner }
      else _ : Except Error Resolved) = result
    cases result with
    | ok call => rfl
    | error error => rfl

/-- Induction along the resolution of a text. -/
theorem resolving_induction {motive : Quoting → Text → Text → Prop}
    (nil : ∀ quoting out, motive quoting out [])
    (char : ∀ quoting out c rest, startsCall quoting out c = false →
      motive (quoting.step c) (c :: out) rest → motive quoting out (c :: rest))
    (lost : ∀ quoting out c rest, startsCall quoting out c = true →
      spanCall 0 .outside rest = none → motive quoting out (c :: rest))
    (call : ∀ quoting out c rest inner after, startsCall quoting out c = true →
      spanCall 0 .outside rest = some (inner, after) →
        motive .outside [] inner →
      (∀ shown, motive .outside shown after) → motive quoting out (c :: rest))
    (quoting : Quoting) (out text : Text) : motive quoting out text := by
  induction size : text.length using Nat.strongRecOn
    generalizing quoting out text with
  | ind size ih =>
      subst size
      cases text with
      | nil => exact nil quoting out
      | cons c rest =>
          cases starts : startsCall quoting out c with
          | false =>
              exact char quoting out c rest starts (ih _ (by simp) _ _ _ rfl)
          | true =>
              cases found : spanCall 0 .outside rest with
              | none => exact lost quoting out c rest starts found
              | some parts =>
                  obtain ⟨inner, after⟩ := parts
                  have split := length_of_spanCall found
                  refine call quoting out c rest inner after starts found
                    (ih _ ?_ _ _ _ rfl) fun shown => ih _ ?_ _ _ _ rfl
                  · rw [List.length_cons]
                    omega
                  · rw [List.length_cons]
                    omega

/-- There are no host functions, and unknown calls are kept. -/
structure Keeping : Prop where
  hostless : functions.host = []
  lenient : functions.unknown.fail = false
  keeps : functions.unknown.keep = true

/-- The names to report after a kept call: an unknown function comes behind its
arguments. -/
def reported (name : Text) (inner : List Text) : List Text :=
  if isNative name then inner
  else if functions.unknown.report then inner ++ [name]
  else inner

variable {functions} {name : Text} {function : Builtin}

theorem Keeping.finish_builtin (keeping : functions.Keeping)
    (known : Builtin.ofName? name = some function) (inner : Resolved) :
    functions.finish name inner =
      match function.apply (splitArguments inner.value) with
      | .ok value => .ok { inner with value }
      | .error error => .error error := by
  rw [finish, keeping.hostless, known]
  rfl

theorem Keeping.finish_kept (keeping : functions.Keeping)
    (other : Builtin.ofName? name = none) (inner : Resolved) :
    functions.finish name inner =
      .ok { value := kept name inner.value,
            unknown := functions.reported name inner.unknown } := by
  rw [finish, keeping.hostless, other, keeping.lenient, keeping.keeps, reported]
  cases isNative name with
  | true => rfl
  | false => rfl

end Functions

end Stylesheet
