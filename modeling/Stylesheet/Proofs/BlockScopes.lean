import Stylesheet.Proofs.Footprint

/-!
# Scopes follow blocks

Blocks and scopes are two stacks that are pushed and popped by different parts
of the compiler.  A statement does one of three things to them: it stays in the
block it stands in (`Local`), it opens one block with its scope (`Opens`), or it
closes one with its scope (`Closes`).  Whether it succeeds makes no difference.
From this the depth of the scopes follows the number of open blocks over every
run, and closing the blocks that a run leaves open restores the scopes.
-/

namespace Stylesheet

namespace Compile

/-- No block was opened or closed, and at most the innermost scope got new
variables. -/
structure Local (before after : State) : Prop where
  blocks : after.blocks = before.blocks
  outer : after.scopes.outer = before.scopes.outer
  retains : before.scopes.Retains after.scopes

instance : IsPreorder State Local where
  refl state := ⟨rfl, rfl, Std.Refl.refl state.scopes⟩
  trans _ _ _ before after :=
    ⟨after.blocks.trans before.blocks, after.outer.trans before.outer,
      trans_of Scopes.Retains before.retains after.retains⟩

theorem Quiet.toLocal {before after : State} (quiet : Quiet before after) :
    Local before after :=
  ⟨quiet.blocks, quiet.scopes.outer, quiet.scopes.retains⟩

theorem local_of_quiet {α : Type} {action : Compile α}
    (quiet : Always Quiet action) :
    Always Local action :=
  quiet.mono Quiet.toLocal

/-- One block was opened, with a scope on top of those there were. -/
structure Opens (before after : State) : Prop where
  blocks : ∃ block, after.blocks = block :: before.blocks
  outer : after.scopes.outer = before.scopes.frames
  retains : before.scopes.Retains after.scopes

/-- One block was closed, and its scope given up. -/
structure Closes (before after : State) : Prop where
  blocks : ∃ block, before.blocks = block :: after.blocks
  outer : before.scopes.outer = after.scopes.frames
  retains : before.scopes.Retains after.scopes

/-- What a statement does to blocks and scopes. -/
inductive Moves (before after : State) : Prop where
  | stays (stays : Local before after)
  | opens (opens : Opens before after)
  | closes (closes : Closes before after)

/-- There is a scope to give up for every open block. -/
def Roomy (state : State) : Prop :=
  state.blocks.length ≤ state.scopes.outer.length

/-- There is a scope to give up if a block is open. -/
def Closable (state : State) : Prop :=
  state.blocks ≠ [] → state.scopes.outer ≠ []

theorem Roomy.closable {state : State} (roomy : Roomy state) :
    Closable state := by
  intro inside none
  rw [Roomy, none] at roomy
  exact inside (List.length_eq_zero_iff.mp (Nat.le_zero.mp roomy))

theorem Moves.after_quiet {before middle after : State}
    (quiet : Quiet before middle) (moves : Moves middle after) :
    Moves before after := by
  cases moves with
  | stays stays => exact .stays (trans_of Local quiet.toLocal stays)
  | opens opens =>
      obtain ⟨block, opened⟩ := opens.blocks
      refine .opens ⟨⟨block, by rw [opened, quiet.blocks]⟩, ?_,
        trans_of Scopes.Retains quiet.scopes.retains opens.retains⟩
      rw [opens.outer, Scopes.frames, Scopes.frames, quiet.scopes.inner,
        quiet.scopes.outer]
  | closes closes =>
      obtain ⟨block, closed⟩ := closes.blocks
      exact .closes ⟨⟨block, by rw [← quiet.blocks, closed]⟩,
        by
        rw [← quiet.scopes.outer, closes.outer],
          trans_of Scopes.Retains quiet.scopes.retains closes.retains⟩

private theorem Opens.before_local {before middle after : State}
    (opens : Opens before middle) (stays : Local middle after) :
    Opens before after := by
  obtain ⟨block, opened⟩ := opens.blocks
  exact
    ⟨⟨block, by rw [stays.blocks, opened]⟩, by rw [stays.outer, opens.outer],
    trans_of Scopes.Retains opens.retains stays.retains⟩

section Step

variable (environment : Environment)

theorem quiet_then_moves {α β : Type} {action : Compile α}
    {next : α → Compile β} (first : Always Quiet action)
    (following : ∀ value, Always Moves (next value)) :
    Always Moves (action >>= next) :=
  first.bindWith following (fun quiet => .stays quiet.toLocal) Moves.after_quiet

theorem local_variableStatement :
    Always Local (variableStatement environment) := by
  refine (local_of_quiet (quiet_reading _)).bind fun _ =>
    (local_of_quiet (quiet_reading _)).bind fun name =>
      Always.onlyIf (.form _) ?_
  refine (local_of_quiet (quiet_reading _)).bind fun _ =>
    (local_of_quiet (quiet_reading _)).bind fun _ =>
      (local_of_quiet (quiet_reading _)).bind fun raw =>
        (local_of_quiet
          (quiet_of_resolved (resolved_resolveValue environment _))).bind
          fun value => .getBind fun state => ?_
  have outer :=
    state.scopes.outer_define name value.unquote (splitDefault raw.trim).2
  have retains :=
    state.scopes.retains_define name value.unquote (splitDefault raw.trim).2
  exact Always.modifyAt ⟨rfl, outer, retains⟩ fun _ =>
    Always.onlyIf (local_of_quiet (quiet_of_resolved (resolved_record _)))
      (local_of_quiet (quiet_reading _))

theorem opens_openBlock (block : Block) : Always Opens (openBlock block) :=
  fun _ => ⟨⟨block, rfl⟩, rfl, Scopes.retains_of_bindings rfl⟩

theorem moves_blockStatement : Always Moves (blockStatement environment) :=
  quiet_then_moves (quiet_reading _) fun _ =>
    quiet_then_moves (quiet_of_resolved (resolved_blockOf environment _))
      fun block =>
      quiet_then_moves (quiet_reading _) fun _ =>
        (opens_openBlock block).mono .opens

theorem moves_statement : Always Moves (statement environment) := by
  refine .getThen fun seen => ?_
  split
  · exact moves_blockStatement environment
  · exact (quiet_declaration environment).mono fun quiet => .stays quiet.toLocal
  · exact (quiet_declaration environment).mono fun quiet => .stays quiet.toLocal
  · exact (quiet_declaration environment).mono fun quiet => .stays quiet.toLocal

theorem local_mixinBody (name : Text) (parameters : List Text) :
    Always Local (mixinBody name parameters) := by
  refine .getThen fun place =>
    (local_of_quiet (quiet_reading _)).bind fun body =>
    .getThen fun defining => Always.bind (fun state => ?_) fun _ =>
      (local_of_quiet (quiet_of_resolved (resolved_record _))).bind fun _ => ?_
  · exact ⟨rfl, rfl, Std.Refl.refl state.scopes⟩
  · split
    · exact local_of_quiet (quiet_of_resolved (resolved_warn _))
    · exact .pure _

theorem local_mixinDirective : Always Local mixinDirective := by
  rw [mixinDirective_eq]
  refine (local_of_quiet quiet_mixinName).bind fun name =>
    .getThen fun seen => ?_
  split
  · exact (local_of_quiet (quiet_reading _)).bind fun _ =>
      (Always.check _).bind fun _ =>
      (local_of_quiet (quiet_reading _)).bind fun _ => local_mixinBody name _
  · exact local_mixinBody name _

/-- From the opening of its block on, an inclusion stays in it. -/
theorem local_expansion (name : Text) (list : Option Text) :
    Always Local (expansion environment name list) := by
  refine
    (local_of_quiet
      (quiet_of_resolved (resolved_resolveArguments environment list))).bind
    fun arguments =>
      (local_of_quiet (quiet_of_resolved (resolved_record _))).bind fun _ =>
      (local_of_quiet (quiet_comment environment _)).bind fun _ =>
        .getBind fun state => ?_
  cases expanded :
    state.mixins.expanded name arguments state.cursor.file state.scopes with
  | error error => exact Std.Refl.refl state
  | ok result =>
      obtain ⟨expansion, mixins, scopes⟩ := result
      obtain ⟨outer, retains⟩ := Mixins.expanded_scopes expanded
      have binding : Local state { state with mixins, scopes } :=
        ⟨rfl, outer, retains⟩
      refine trans_of Local binding ?_
      exact local_of_quiet
        ((quiet_of_resolved (resolved_record _)).bind fun _ =>
        quiet_splice _) _

theorem moves_includeDirective :
    Always Moves (includeDirective environment) := by
  rw [includeDirective_eq]
  refine quiet_then_moves quiet_mixinName fun name =>
    quiet_then_moves quiet_argumentList? fun list =>
      quiet_then_moves (quiet_endInclude name) fun _ => .getThen fun seen => ?_
  exact (opens_openBlock _).bindWith
    (fun _ => local_expansion environment name list)
    .opens fun opens stays => .opens (opens.before_local stays)

theorem moves_directive : Always Moves (directive environment) := by
  refine quiet_then_moves (quiet_reading _) fun _ =>
    quiet_then_moves (quiet_reading _) fun name =>
    quiet_then_moves (quiet_reading _) fun _ => .getThen fun seen => ?_
  have still {α : Type} {action : Compile α} (quiet : Always Quiet action) :
      Always Moves action :=
    quiet.mono fun quiet => .stays quiet.toLocal
  dsimp only
  split
  · split
    · exact still (.form _)
    · exact local_mixinDirective.mono .stays
  · split
    · split
      · exact moves_includeDirective environment
      · exact still (.form _)
    · split
      · exact still (quiet_importDirective environment)
      · split
        · exact still (quiet_conditionDirective environment)
        · exact still (.throw _)

private theorem closeBlock_of_closable {state : State}
    (inside : state.blocks ≠ []) (closable : Closable state) :
    ∃ closed, closeBlock state = .ok () closed := by
  obtain ⟨block, rest, blocks⟩ := List.exists_cons_of_ne_nil inside
  obtain ⟨frame, frames, outer⟩ := List.exists_cons_of_ne_nil (closable inside)
  exact ⟨_, closeBlock_cons blocks outer⟩

theorem moves_closeBlock {state : State} (closable : Closable state) :
    Moves state (finalState (closeBlock state)) := by
  cases blocks : state.blocks with
  | nil =>
      have failed : closeBlock state = .error .noBlockOpen state := by
        simp [closeBlock, blocks]
      rw [failed]
      exact .stays (Std.Refl.refl state)
  | cons block rest =>
      cases outer : state.scopes.outer with
      | nil => exact absurd outer (closable (by simp [blocks]))
      | cons frame frames =>
          rw [closeBlock_cons blocks outer]
          exact .closes ⟨⟨block, blocks⟩, outer, Scopes.retains_of_bindings rfl⟩

private theorem quiet_then_moves_if_closable {α β : Type} {action : Compile α}
    {next : α → Compile β} (first : Always Quiet action)
    (following : ∀ value,
      Always (fun before after => Closable before → Moves before after)
      (next value)) :
    Always (fun before after => Closable before → Moves before after)
      (action >>= next) := by
  refine first.bindWith following (fun quiet _ => .stays quiet.toLocal) ?_
  intro before middle after quiet moves closable
  refine Moves.after_quiet quiet (moves ?_)
  rw [Closable, quiet.blocks, quiet.scopes.outer]
  exact closable

theorem moves_step :
    Always (fun before after => Closable before → Moves before after)
    (step environment) := by
  have answering {action : Compile Unit}
      (always : Always
        (fun before after => Closable before → Moves before after) action) :
      Always (fun before after => Closable before → Moves before after)
        (do action; return true) := by
    intro state
    rw [finalState_return]
    exact always state
  refine quiet_then_moves_if_closable (quiet_reading _) fun _ =>
    .getThen fun seen => ?_
  split
  · refine .getThen fun seen => ?_
    split
    · exact fun state _ => .stays (Std.Refl.refl state)
    · exact fun state _ => .stays (Std.Refl.refl state)
  · exact answering fun state => moves_closeBlock
  · exact answering fun state _ => .stays (quiet_reading _ state).toLocal
  · exact answering fun state _ =>
      .stays (local_variableStatement environment state)
  · exact answering fun state _ => moves_directive environment state
  · exact answering fun state _ => moves_statement environment state

end Step

end Compile

namespace State

open Compile

/-- The scopes under those of the open blocks, the innermost first. -/
def base (state : State) : List Frame :=
  state.scopes.frames.drop state.blocks.length

theorem base_eq_frames {state : State} (outside : state.blocks = []) :
    state.base = state.scopes.frames := by
  rw [base, outside, List.length_nil, List.drop_zero]

/-- Only a statement outside of all blocks changes the base, and only its
innermost scope. -/
theorem base_of_moves {before after : State} (moves : Moves before after) :
    after.base = before.base ∨
      before.blocks = [] ∧ after.blocks = [] ∧
        after.base.tail = before.base.tail := by
  cases moves with
  | stays stays =>
      cases blocks : before.blocks with
      | nil =>
          have outside : after.blocks = [] := by rw [stays.blocks, blocks]
          refine .inr ⟨rfl, outside, ?_⟩
          rw [base_eq_frames blocks, base_eq_frames outside]
          exact stays.outer
      | cons block rest =>
          left
          simp [base, Scopes.frames, stays.blocks, stays.outer, blocks]
  | opens opens =>
      obtain ⟨block, opened⟩ := opens.blocks
      left
      simp [base, Scopes.frames, opened, opens.outer]
  | closes closes =>
      obtain ⟨block, closed⟩ := closes.blocks
      left
      simp only [base, closed, List.length_cons, Scopes.frames,
        List.drop_succ_cons]
      rw [closes.outer, Scopes.frames]

theorem depth_of_moves {before after : State} (moves : Moves before after) :
    after.scopes.outer.length + before.blocks.length =
      before.scopes.outer.length + after.blocks.length := by
  cases moves with
  | stays stays => rw [stays.outer, stays.blocks]
  | opens opens =>
      obtain ⟨block, opened⟩ := opens.blocks
      rw [opens.outer, opened, Scopes.frames, List.length_cons,
        List.length_cons]
      omega
  | closes closes =>
      obtain ⟨block, closed⟩ := closes.blocks
      rw [closes.outer, closed, Scopes.frames, List.length_cons,
        List.length_cons]
      omega

variable {environment : Environment} {start state : State}

/-- Over a run, the number of scopes follows the number of blocks. -/
theorem depth_of_reaches (outside : start.blocks = [])
    (reached : Reaches environment start state) :
    state.scopes.outer.length =
      start.scopes.outer.length + state.blocks.length := by
  induction reached with
  | refl => simp [outside]
  | @step state next reached taken ih =>
      have roomy : Roomy state := by
        rw [Roomy, ih]
        omega
      have moves := moves_step environment state roomy.closable
      rw [taken] at moves
      have balance := depth_of_moves moves
      simp only [finalState] at balance
      omega

theorem roomy_of_reaches (outside : start.blocks = [])
    (reached : Reaches environment start state) : Roomy state := by
  rw [Roomy, depth_of_reaches outside reached]
  omega

theorem moves_of_reaches (outside : start.blocks = [])
    (reached : Reaches environment start state) :
    Moves state (finalState (step environment state)) :=
  moves_step environment state (roomy_of_reaches outside reached).closable

/-- Closing the scopes of open blocks leaves those below them. -/
theorem frames_closeScopes (blocks : List Block) (scopes : Scopes)
    (enough : blocks.length ≤ scopes.outer.length) :
    (closeScopes scopes blocks).frames = scopes.frames.drop blocks.length := by
  induction blocks generalizing scopes with
  | nil => rfl
  | cons block blocks ih =>
      cases outer : scopes.outer with
      | nil => simp [outer] at enough
      | cons frame frames =>
          have fewer : blocks.length ≤ frames.length := by
            simpa [outer] using enough
          rw [closeScopes, Scopes.pop_cons outer]
          simpa [Scopes.frames, outer]
            using ih { scopes with inner := frame, outer := frames } fewer

theorem frames_finish (roomy : Roomy state) :
    state.finish.scopes.frames = state.base :=
  frames_closeScopes state.blocks state.scopes roomy

/-- `name` was defined by a statement outside of all blocks. -/
def DefinedOutside (environment : Environment) (start : State)
    (name : Text) : Prop :=
  ∃ state, Reaches environment start state ∧ state.blocks = [] ∧
    state.scopes.contains name = false ∧
    (finalState (step environment state)).scopes.contains name = true

/-- What a statement does to the base, in terms of the names in it. -/
theorem base_of_step (outside : start.blocks = [])
    (reached : Reaches environment start state) :
    (finalState (step environment state)).base.tail = state.base.tail ∧
      ∀ frame ∈ (finalState (step environment state)).base, ∀ name,
        (frame.lookup name).isSome →
        (∃ earlier ∈ state.base, (earlier.lookup name).isSome) ∨
          DefinedOutside environment start name := by
  rcases base_of_moves (moves_of_reaches outside reached) with same
    | ⟨none, after, tail⟩
  · rw [same]
    exact ⟨rfl, fun frame member name shown => .inl ⟨frame, member, shown⟩⟩
  · refine ⟨tail, fun frame member name shown => ?_⟩
    rw [base_eq_frames after] at member
    rw [base_eq_frames none]
    by_cases known : state.scopes.contains name = true
    · exact .inl ((Scopes.contains_iff _ _).mp known)
    · have defined :
          (finalState (step environment state)).scopes.contains name = true :=
        (Scopes.contains_iff _ _).mpr ⟨frame, member, shown⟩
      exact .inr ⟨state, reached, none, by simpa using known, defined⟩

/-- The base of a run keeps its outer scopes, and what is new in its innermost
one was defined outside of all blocks. -/
theorem base_of_reaches (outside : start.blocks = [])
    (reached : Reaches environment start state) :
    state.base.tail = start.scopes.outer ∧
      ∀ frame ∈ state.base, ∀ name, (frame.lookup name).isSome →
        start.scopes.contains name = true ∨
          DefinedOutside environment start name := by
  induction reached with
  | refl =>
      rw [base_eq_frames outside]
      exact ⟨rfl, fun frame member name shown =>
        .inl ((Scopes.contains_iff _ _).mpr ⟨frame, member, shown⟩)⟩
  | @step state next reached taken ih =>
      obtain ⟨tail, names⟩ := base_of_step outside reached
      rw [taken] at tail names
      refine ⟨tail.trans ih.1, fun frame member name shown => ?_⟩
      rcases names frame member name shown with ⟨earlier, present, known⟩
        | defined
      · exact ih.2 earlier present name known
      · exact .inr defined

/-- The same for the state in which a run stopped, between statements or inside
of one. -/
theorem base_of_run (outside : start.blocks = []) (fuel : Nat) :
    Roomy (start.run environment fuel).2 ∧
      (start.run environment fuel).2.scopes.outer.length =
        start.scopes.outer.length +
          (start.run environment fuel).2.blocks.length ∧
      (start.run environment fuel).2.base.tail = start.scopes.outer ∧
      ∀ frame ∈ (start.run environment fuel).2.base, ∀ name,
        (frame.lookup name).isSome →
        start.scopes.contains name = true ∨
          DefinedOutside environment start name := by
  rcases run_cases environment fuel start with ⟨-, reached⟩
    | ⟨state, reached, stopped⟩
  · exact ⟨roomy_of_reaches outside reached, depth_of_reaches outside reached,
      base_of_reaches outside reached⟩
  · have before := depth_of_reaches outside reached
    have balance := depth_of_moves (moves_of_reaches outside reached)
    obtain ⟨tail, names⟩ := base_of_step outside reached
    obtain ⟨earlierTail, earlierNames⟩ := base_of_reaches outside reached
    rw [stopped]
    refine ⟨by rw [Roomy]; omega, by omega, tail.trans earlierTail,
      fun frame member name shown => ?_⟩
    rcases names frame member name shown with ⟨earlier, present, known⟩
      | defined
    · exact earlierNames earlier present name known
    · exact .inr defined

end State

namespace Compilation

/-- The compilations that calls lead to, whether they succeed or not. -/
inductive Reachable : Compilation → Prop where
  | new : Reachable {}
  | process {compilation : Compilation} (environment : Environment) (fuel : Nat)
      (source : Text) (file : Option Text) :
      Reachable compilation →
        Reachable (compilation.process environment fuel source file).2
  | processFile {compilation : Compilation}
      (environment : Environment) (fuel : Nat) (files : Files) (path : Text) :
      Reachable compilation →
        Reachable (compilation.processFile environment fuel files path).2
  | render {compilation : Compilation} (options : Options) :
      Reachable compilation → Reachable (compilation.render options).2
  | diagnose {compilation : Compilation} :
      Reachable compilation → Reachable compilation.diagnose.2
  | reset {compilation : Compilation} : Reachable compilation →
      Reachable compilation.reset

theorem scopes_announce (environment : Environment) (compilation : Compilation)
    (file : Option Text) :
    (compilation.announce environment file).scopes = compilation.scopes := by
  obtain ⟨sheet, log, same⟩ := announce_eq environment compilation file
  rw [same]

theorem scopes_process (environment : Environment) (fuel : Nat)
    (compilation : Compilation) (source : Text) (file : Option Text) :
    (compilation.process environment fuel source file).2.scopes =
      (((compilation.announce environment file).start source file).run
        environment fuel).2.finish.scopes := by
  obtain ⟨log, same⟩ := process_eq environment fuel compilation source file
  rw [same]

theorem depth_process (environment : Environment) (fuel : Nat)
    (compilation : Compilation) (source : Text) (file : Option Text) :
    (compilation.process environment fuel source file).2.scopes.depth =
      compilation.scopes.depth := by
  have outside :
      ((compilation.announce environment file).start source file).blocks = [] :=
        rfl
  obtain ⟨roomy, depth, -, -⟩ := @State.base_of_run environment _ outside fuel
  have same :
      ((compilation.announce environment file).start source file).scopes =
      compilation.scopes := scopes_announce environment compilation file
  rw [scopes_process, Scopes.depth, State.frames_finish roomy, State.base,
    List.length_drop, Scopes.frames, List.length_cons, depth, same,
    Scopes.depth, Scopes.frames, List.length_cons]
  omega

theorem scopes_diagnose (compilation : Compilation) :
    compilation.diagnose.2.scopes = compilation.scopes := by
  unfold diagnose
  dsimp only
  generalize Finding.check compilation.mixins compilation.scopes = findings
  induction findings generalizing compilation with
  | nil => rfl
  | cons finding findings ih => exact ih (compilation.record (.found finding))

theorem depth_of_reachable {compilation : Compilation}
    (reachable : Reachable compilation) :
    compilation.scopes.depth = 1 := by
  induction reachable with
  | new => rfl
  | process environment fuel source file _ ih => rw [depth_process, ih]
  | processFile environment fuel files path _ ih =>
      unfold processFile
      split
      · rw [depth_process, ih]
      · exact ih
  | render options _ ih => exact ih
  | diagnose _ ih => rw [scopes_diagnose, ih]
  | reset _ _ => rfl

end Compilation

/-- Between the statements of a run and after every statement, successful or
not, there is one scope for each open block on top of those there were before.
So a block can always be closed, and after the run the scopes are back to those
of before: the outer ones as they were, the innermost one with at most what was
defined outside of all blocks.  Between calls only the global scope is open. -/
theorem scopes_follow_blocks (environment : Environment) (start : State)
    (outside : start.blocks = []) :
    (∀ state, State.Reaches environment start state →
        state.scopes.depth = start.scopes.depth + state.blocks.length ∧
        (finalState (Compile.step environment state)).scopes.depth =
          start.scopes.depth +
            (finalState (Compile.step environment state)).blocks.length ∧
        (state.blocks ≠ [] → ∃ closed,
          Compile.closeBlock state = .ok () closed)) ∧
      (∀ fuel,
        (start.run environment fuel).2.finish.scopes.depth =
          start.scopes.depth ∧
        (start.run environment fuel).2.finish.scopes.outer =
          start.scopes.outer ∧
        ∀ name,
          (start.run environment fuel).2.finish.scopes.contains name = true →
          start.scopes.contains name = true ∨
            State.DefinedOutside environment start name) ∧
      ∀ compilation, Compilation.Reachable compilation →
        compilation.scopes.depth = 1 := by
  refine ⟨fun state reached => ?_, fun fuel => ?_,
    fun _ => Compilation.depth_of_reachable⟩
  · have before := State.depth_of_reaches outside reached
    have balance :=
      State.depth_of_moves (State.moves_of_reaches outside reached)
    refine ⟨?_, ?_, fun inside => ?_⟩
    · simp only [Scopes.depth, Scopes.frames, List.length_cons]
      omega
    · simp only [Scopes.depth, Scopes.frames, List.length_cons]
      omega
    · exact Compile.closeBlock_of_closable inside
        (State.roomy_of_reaches outside reached).closable
  · obtain ⟨roomy, depth, tail, names⟩ :=
      @State.base_of_run environment _ outside fuel
    have frames := State.frames_finish roomy
    refine ⟨?_, ?_, fun name shown => ?_⟩
    · rw [Scopes.depth, frames, State.base, List.length_drop, Scopes.depth,
        Scopes.frames, Scopes.frames, List.length_cons, List.length_cons]
      omega
    · rw [← tail, ← frames]
      rfl
    · obtain ⟨frame, member, known⟩ := (Scopes.contains_iff _ _).mp shown
      rw [frames] at member
      exact names frame member name known

/-- An inclusion that fails after its block was opened. -/
theorem scopes_follow_blocks_failing :
    (({} : Compilation).start "$x: 1; .a { .b { @include missing(2); } }".toList
      none).blocks = [] ∧
      ((({} : Compilation).start
        "$x: 1; .a { .b { @include missing(2); } }".toList none).run
        {} 10).2.finish.scopes.depth = 1 :=
  ⟨rfl, ((scopes_follow_blocks {} _ rfl).2.1 10).1⟩

end Stylesheet
