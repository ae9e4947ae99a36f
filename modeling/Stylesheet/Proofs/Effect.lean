import Mathlib.Order.Defs.Unbundled
import Stylesheet.Compile.Run

/-!
# Effects of work on a state

A fact about a compilation mostly compares the state before some work with the
state after it, and has to hold whether the work succeeded or failed.  `Always`
states such a fact for an action.  It passes through sequencing when the
relation is a preorder, so it is proved once for every small action and composed
from there on.

`State.Reaches` collects the states between the statements of a run, and
`Compilation.processAll` compiles one stylesheet after another.
-/

namespace Stylesheet

section Equations

variable {ε σ α β : Type} (state : σ)

@[simp] theorem bind_apply (action : EStateM ε σ α) (next : α → EStateM ε σ β) :
    (action >>= next) state =
      match action state with
      | .ok value after => next value after
      | .error error after => .error error after :=
  rfl

@[simp] theorem pure_apply (value : α) :
    (pure value : EStateM ε σ α) state = .ok value state :=
  rfl

@[simp] theorem throw_apply (error : ε) :
    (throw error : EStateM ε σ α) state = .error error state :=
  rfl

@[simp] theorem get_apply : (get : EStateM ε σ σ) state = .ok state state :=
  rfl

@[simp] theorem modify_apply (change : σ → σ) :
    (modify change : EStateM ε σ PUnit) state = .ok ⟨⟩ (change state) :=
  rfl

theorem bind_ok {action : EStateM ε σ α} {next : α → EStateM ε σ β}
    {state final : σ} {result : β}
    (succeeded : (action >>= next) state = .ok result final) :
    ∃ value middle, action state = .ok value middle ∧
      next value middle = .ok result final := by
  rw [bind_apply] at succeeded
  cases first : action state with
  | ok value middle =>
      rw [first] at succeeded
      exact ⟨value, middle, rfl, succeeded⟩
  | error error middle =>
      rw [first] at succeeded
      simp at succeeded

/-- An error may carry a floating-point number, so only successes are
compared. -/
instance decidableEqOk [DecidableEq σ] [DecidableEq α] (value : α) :
    (result : EStateM.Result ε σ α) → Decidable (result = .ok value state)
  | .ok other after =>
      decidable_of_iff (other = value ∧ after = state)
        (EStateM.Result.ok.injEq other after value state).to_iff.symm
  | .error _ _ => .isFalse nofun

end Equations

instance (outcome : Outcome) : Decidable (outcome = .finished) :=
  match outcome with
  | .finished => .isTrue rfl
  | .failed _ => .isFalse nofun
  | .unfinished => .isFalse nofun

instance (outcome : Outcome) : Decidable (outcome = .unfinished) :=
  match outcome with
  | .finished => .isFalse nofun
  | .failed _ => .isFalse nofun
  | .unfinished => .isTrue rfl

/-- The state in which work ended, with a value or with an error. -/
def finalState {σ α : Type} : EStateM.Result Error σ α → σ
  | .ok _ state => state
  | .error _ state => state

theorem finalState_return {σ α β : Type} (action : EStateM Error σ α)
    (value : β) (state : σ) :
    finalState ((do let _ ← action; return value) state) =
      finalState (action state) := by
  rw [bind_apply]
  cases action state with
  | ok result after => rfl
  | error error after => rfl

/-- However `action` ends, it relates the state before to the state after. -/
def Always {σ α : Type} (relation : σ → σ → Prop)
    (action : EStateM Error σ α) : Prop :=
  ∀ state, relation state (finalState (action state))

namespace Always

variable {σ α β : Type} {relation : σ → σ → Prop}

/-- What follows a look at the state may use what was seen. -/
theorem getBind {next : σ → EStateM Error σ α}
    (following : ∀ state, relation state (finalState (next state state))) :
    Always relation (get >>= next) :=
  following

theorem of_ok {action : EStateM Error σ α} (always : Always relation action)
    {state after : σ} {value : α} (succeeded : action state = .ok value after) :
    relation state after := by
  have facts := always state
  rwa [succeeded] at facts

theorem mono {weaker : σ → σ → Prop} {action : EStateM Error σ α}
    (always : Always relation action)
    (weaken : ∀ {before after}, relation before after →
      weaker before after) : Always weaker action :=
  fun state => weaken (always state)

/-- Two kinds of effects in a row make a third. -/
theorem bindWith {second result : σ → σ → Prop} {action : EStateM Error σ α}
    {next : α → EStateM Error σ β} (first : Always relation action)
    (following : ∀ value, Always second (next value))
    (stop : ∀ {before after}, relation before after → result before after)
    (compose : ∀ {before middle after}, relation before middle →
      second middle after →
      result before after) : Always result (action >>= next) := by
  intro state
  have before := first state
  simp only [Bind.bind, EStateM.bind]
  cases ending : action state with
  | ok value middle =>
      rw [ending] at before
      exact compose before (following value middle)
  | error error middle =>
      rw [ending] at before
      exact stop before

theorem getThen {next : σ → EStateM Error σ α}
    (following : ∀ seen, Always relation (next seen)) :
    Always relation (get >>= next) :=
  fun state => following state state

variable [IsPreorder σ relation]

theorem bind {action : EStateM Error σ α} {next : α → EStateM Error σ β}
    (first : Always relation action)
    (second : ∀ value, Always relation (next value)) :
    Always relation (action >>= next) :=
  first.bindWith second id (trans_of relation)

/-- What follows may use that the first action succeeded. -/
theorem bindOk {action : EStateM Error σ α} {next : α → EStateM Error σ β}
    (first : Always relation action)
    (second : ∀ {state value after}, action state = .ok value after →
      relation after (finalState (next value after))) :
    Always relation (action >>= next) := by
  intro state
  have before := first state
  rw [bind_apply]
  cases ending : action state with
  | ok value middle =>
      rw [ending] at before
      exact trans_of relation before (second ending)
  | error error middle =>
      rw [ending] at before
      exact before

theorem pure (value : α) : Always relation (Pure.pure value) :=
  fun state => Std.Refl.refl state

theorem throw (error : Error) :
    Always relation (MonadExcept.throw error : EStateM Error σ α) :=
  fun state => Std.Refl.refl state

/-- A change of the state that was just looked at, and what follows it. -/
theorem modifyAt {change : σ → σ} {next : PUnit → EStateM Error σ α} {state : σ}
    (changed : relation state (change state))
    (following : ∀ value, Always relation (next value)) :
    relation state (finalState ((modify change >>= next) state)) :=
  trans_of relation changed (following _ (change state))

/-- Something that is done on a condition, before the rest. -/
theorem onlyIf {condition : Prop} [Decidable condition]
    {action : EStateM Error σ PUnit} {next : PUnit → EStateM Error σ α}
    (sometimes : Always relation action)
    (following : Always relation (next ⟨⟩)) :
    Always relation (if condition then action >>= next else next ⟨⟩) := by
  split
  · exact sometimes.bind fun _ => following
  · exact following

theorem forM {items : List α} {action : α → EStateM Error σ PUnit}
    (each : ∀ item, Always relation (action item)) :
    Always relation (items.forM action) := by
  induction items with
  | nil => exact Always.pure _
  | cons item items ih => exact (each item).bind fun _ => ih

theorem mapM {items : List α} {action : α → EStateM Error σ β}
    (each : ∀ item, Always relation (action item)) :
    Always relation (items.mapM action) := by
  induction items with
  | nil =>
      rw [List.mapM_nil]
      exact Always.pure _
  | cons item items ih =>
      rw [List.mapM_cons]
      exact (each item).bind fun _ => ih.bind fun _ => Always.pure _

end Always

section

variable {α : Type} {relation : State → State → Prop}
  [IsPreorder State relation]

theorem Always.form (fault : FormFault) :
    Always relation (Compile.form fault : Compile α) :=
  Always.throw _

theorem Always.check (result : Except Error α) :
    Always relation (Compile.check result) := by
  cases result with
  | ok value => exact Always.pure value
  | error error => exact Always.throw error

end

/-- The message of the error that a run ended with. -/
def Outcome.message? : Outcome → Option Text
  | .failed failure => some failure.error.message
  | _ => none

namespace State

/-- The states between the statements of a run from `start`. -/
inductive Reaches (environment : Environment) (start : State) :
    State → Prop where
  | refl : Reaches environment start start
  | step {state next : State} :
      Reaches environment start state →
      Compile.step environment state = .ok true next →
      Reaches environment start next

theorem Reaches.trans {environment : Environment} {start middle last : State}
    (first : Reaches environment start middle)
    (second : Reaches environment middle last) :
    Reaches environment start last := by
  induction second with
  | refl => exact first
  | step _ taken ih => exact .step ih taken

theorem Reaches.head {environment : Environment} {start next state : State}
    (first : Compile.step environment start = .ok true next)
    (reached : Reaches environment next state) :
    Reaches environment start state :=
  .trans (.step .refl first) reached

theorem Reaches.cases_head {environment : Environment} {start last : State}
    (reached : Reaches environment start last) :
    last = start ∨
      ∃ next, Compile.step environment start = .ok true next ∧
        Reaches environment next last := by
  induction reached with
  | refl => exact .inl rfl
  | @step middle last _ taken ih =>
      rcases ih with rfl | ⟨next, first, behind⟩
      · exact .inr ⟨last, taken, .refl⟩
      · exact .inr ⟨next, first, .step behind taken⟩

/-- A run goes on from every state it reaches. -/
theorem Reaches.run_eq {environment : Environment} {start state : State}
    (reached : Reaches environment start state) :
    ∃ count, ∀ fuel, start.run environment (count + fuel) =
      state.run environment fuel := by
  induction reached with
  | refl => exact ⟨0, fun fuel => by rw [Nat.zero_add]⟩
  | @step state next _ taken ih =>
      obtain ⟨count, same⟩ := ih
      refine ⟨count + 1, fun fuel => ?_⟩
      rw [Nat.add_assoc, same, Nat.add_comm, run, taken]

/-- A run stops at a state between statements, or in the statement after it. -/
theorem run_cases (environment : Environment) (fuel : Nat) (start : State) :
    (start.run environment fuel).1 = .unfinished ∧
        Reaches environment start (start.run environment fuel).2 ∨
      ∃ state, Reaches environment start state ∧
        (start.run environment fuel).2 =
          finalState (Compile.step environment state) := by
  -- The run is peeled off from its front, so the start has to vary.
  suffices general : ∀ fuel state, Reaches environment start state →
      (state.run environment fuel).1 = .unfinished ∧
          Reaches environment start (state.run environment fuel).2 ∨
        ∃ last, Reaches environment start last ∧
          (state.run environment fuel).2 =
            finalState (Compile.step environment last) from
    general fuel start .refl
  intro fuel
  induction fuel with
  | zero =>
      intro state reached
      exact .inl ⟨rfl, reached⟩
  | succ fuel ih =>
      intro state reached
      cases result : Compile.step environment state with
      | ok more next =>
          cases more with
          | true =>
              simp only [run, result]
              exact ih next (reached.step result)
          | false =>
              exact .inr ⟨state, reached, by simp [run, result, finalState]⟩
      | error error next =>
          exact .inr ⟨state, reached, by simp [run, result, finalState]⟩

/-- What holds over every statement holds over a run. -/
theorem run_always {environment : Environment} {relation : State → State → Prop}
    [IsPreorder State relation]
    (always : Always relation (Compile.step environment)) (fuel : Nat)
    (start : State) : relation start (start.run environment fuel).2 := by
  induction fuel generalizing start with
  | zero => exact Std.Refl.refl start
  | succ fuel ih =>
      have taken := always start
      rw [run]
      cases result : Compile.step environment start with
      | ok more next =>
          rw [result] at taken
          cases more with
          | true => exact trans_of relation taken (ih next)
          | false => exact taken
      | error error next =>
          rw [result] at taken
          exact taken

end State

namespace Compilation

theorem announce_eq (environment : Environment) (compilation : Compilation)
    (file : Option Text) :
    ∃ sheet log, compilation.announce environment file =
      { compilation with sheet, log } := by
  unfold announce
  split
  · dsimp only
    split
    · exact ⟨_, _, rfl⟩
    · exact ⟨_, _, rfl⟩
  · exact ⟨_, _, rfl⟩

/-- Compiling a stylesheet is a run, but for what is logged at its end. -/
theorem process_eq (environment : Environment) (fuel : Nat)
    (compilation : Compilation) (source : Text) (file : Option Text) :
    ∃ log, compilation.process environment fuel source file =
      let start := (compilation.announce environment file).start source file
      ((start.run environment fuel).1,
        { (start.run environment fuel).2.finish with log }) := by
  unfold process processInput
  rw [TextInput.characters_ofText]
  dsimp only
  split
  · rename_i failed
    rw [failed]
    exact ⟨_, rfl⟩
  · exact ⟨_, rfl⟩

/-- A stylesheet to compile: its text, its file, and how many statements may be
read. -/
structure Call where
  source : Text
  file : Option Text := none
  fuel : Nat

/-- Compiles stylesheets one after another, whether they succeed or not. -/
def processAll (environment : Environment) :
    List Call → Compilation → List Outcome × Compilation
  | [], compilation => ([], compilation)
  | call :: calls, compilation =>
      let (outcome, next) :=
        compilation.process environment call.fuel call.source call.file
      let (outcomes, last) := processAll environment calls next
      (outcome :: outcomes, last)

end Compilation

end Stylesheet
