import Mathlib.Data.List.Lex
import Stylesheet.Proofs.BlockScopes
import Stylesheet.Proofs.Reading
import Stylesheet.Proofs.SourceGroups

/-!
# Runs without imports end

An inclusion takes no closing brace, so it cannot use up a group of sources
before it puts a new one on top: some group below gets shorter.  A chosen body
is put back into the group it stands in.  So the sizes of the groups, the lowest
first, go down in lexicographic order, and there are never more of them than
sources.
-/

namespace Stylesheet

namespace Compile

/-- Bodies that were settled stay so, and new ones are. -/
def KeepsBodies (before after : State) : Prop :=
  before.mixins.Bodies Settled → after.mixins.Bodies Settled

instance : IsPreorder State KeepsBodies where
  refl _ := id
  trans _ _ _ first second := second ∘ first

theorem bodies_of_quiet {α : Type} {action : Compile α}
    (quiet : Always Quiet action) :
    Always KeepsBodies action :=
  quiet.mono fun quiet bodied => quiet.mixins ▸ bodied

theorem bodies_of_resolved {α : Type} {action : Compile α}
    (resolved : Always Compile.Resolved action) : Always KeepsBodies action :=
  bodies_of_quiet (quiet_of_resolved resolved)

section

variable (environment : Environment)

/-- What is read between braces is settled. -/
theorem settled_of_readGroup {state after : State} {body : Text}
    (read : reading (Reader.readGroup '{' '}') state = .ok body after) :
    Settled body := by
  simp only [reading, Reader.readGroup, bind_apply, get_apply, Cursor.expect]
    at read
  cases standing : state.cursor.isAt '{' with
  | false => simp [standing] at read
  | true =>
      cases found :
        spanGroup '{' '}' 0 .outside state.cursor.advance.pending with
      | none => simp [standing, found, Reader.pass] at read
      | some contents =>
          simp only [standing, if_true, found, Reader.pass, bind_apply,
            modify_apply, pure_apply, EStateM.Result.ok.injEq] at read
          rw [← read.1]
          exact (spanGroup_braces found).1

theorem bodies_mixinBody (name : Text) (parameters : List Text) :
    Always KeepsBodies (mixinBody name parameters) := by
  refine .getThen fun place =>
    .bindOk (bodies_of_quiet (quiet_reading _)) fun {_ body after} read => ?_
  suffices following : Always KeepsBodies _ from following after
  refine .getThen fun defining => Always.bind (fun state bodied => ?_) fun _ =>
    (bodies_of_resolved (resolved_record _)).bind fun _ => ?_
  · exact Mixins.Bodies.define bodied (settled_of_readGroup read)
  · split
    · exact bodies_of_resolved (resolved_warn _)
    · exact .pure _

theorem bodies_expansion (name : Text) (list : Option Text) :
    Always KeepsBodies (expansion environment name list) := by
  refine (bodies_of_resolved (resolved_resolveArguments environment list)).bind
    fun arguments =>
    (bodies_of_resolved (resolved_record _)).bind fun _ =>
      (bodies_of_quiet (quiet_comment environment _)).bind fun _ =>
        .getBind fun state => ?_
  cases expanded :
    state.mixins.expanded name arguments state.cursor.file state.scopes with
  | error error => exact Std.Refl.refl state
  | ok result =>
      obtain ⟨expansion, mixins, scopes⟩ := result
      have binding : KeepsBodies state { state with mixins, scopes } :=
        fun bodied => bodied.expanded expanded
      refine trans_of KeepsBodies binding ?_
      exact ((bodies_of_resolved (resolved_record _)).bind fun _ =>
        bodies_of_quiet (quiet_splice _)) _

theorem allowsReading_keepsBodies : AllowsReading KeepsBodies where
  lookup _ _ bodied := bodied
  log _ _ _ bodied := bodied
  move _ _ bodied := bodied
  print _ _ bodied := bodied

private theorem allowsStatements_keepsBodies :
    AllowsStatements environment KeepsBodies where
  toAllowsReading := allowsReading_keepsBodies
  opening _ _ bodied := bodied
  closing := allowsReading_keepsBodies.closeBlock (fun _ _ bodied => bodied)
    fun _ _ bodied => bodied
  defining := allowsReading_keepsBodies.variableStatement environment
    fun _ _ bodied => bodied
  registering := bodies_mixinBody
  including := bodies_expansion environment
  importing :=
    allowsReading_keepsBodies.importFile environment (fun _ _ bodied => bodied)
    fun _ _ bodied => bodied

theorem bodies_step : Always KeepsBodies (step environment) :=
  (allowsStatements_keepsBodies environment).step

end

end Compile

theorem length_skip_le (count : Nat) (texts : List Text) :
    (skip count texts).length ≤ texts.length := by
  fun_induction skip count texts with
  | case1 => exact Nat.le_refl _
  | case2 => exact Nat.le_refl _
  | case3 => exact Nat.le_refl _
  | case4 count text next lower exhausted ih => exact Nat.le_succ_of_le ih

/-- What holds between the statements of a run: the sources form framed groups,
there are not too many of them, and the bodies of mixins are settled. -/
structure State.Grouped (state : State) (groups : List Text) : Prop where
  ready : state.cursor.Ready
  few : state.cursor.layers.length ≤ Cursor.maxSources
  bodied : state.mixins.Bodies Settled
  coarse : Coarse state.cursor.layers groups
  framed : Framed groups

namespace State.Grouped

variable {before after : State} {groups : List Text}

theorem nonempty (grouped : before.Grouped groups) : groups ≠ [] :=
  grouped.coarse.ne_nil before.cursor.layers_ne_nil

theorem flatten_eq (grouped : before.Grouped groups) :
    groups.flatten = before.cursor.pending := by
  rw [grouped.coarse.flatten_eq, Cursor.flatten_layers]

theorem of_insert {cursor : Cursor} {source : Source}
    (inserted : cursor.insert source = .ok after.cursor)
    (coarse : Coarse (source.text :: cursor.layers) groups)
    (framed : Framed groups) (bodied : after.mixins.Bodies Settled) :
    after.Grouped groups := by
  obtain ⟨ready, layers, room⟩ := Cursor.layers_insert inserted
  refine ⟨ready, ?_, bodied, ?_, framed⟩
  · rw [layers]
    exact Nat.le_trans (length_skip_le _ _) room
  · rw [layers, ← framed.skip_zero]
    exact coarse.skip 0

theorem step {environment : Environment}
    (nothing : ∀ path, (environment.loader.fetch path).content = none)
    (grouped : before.Grouped groups) (orderly : before.Orderly)
    (succeeded : Compile.step environment before = .ok true after) :
    ∃ smaller, after.Grouped smaller ∧
      List.Lex (· < ·) (sizes smaller) (sizes groups) := by
  have bodied :=
    (Compile.bodies_step environment).of_ok succeeded grouped.bodied
  cases progress_step nothing grouped.ready orderly succeeded with
  | @passed taken rest passed some shut =>
      obtain ⟨used, part, left, lower, located⟩ :=
        grouped.framed.located grouped.nonempty
        (by rw [grouped.flatten_eq, passed.pending]) shut
      refine ⟨left :: lower,
        ⟨passed.ready grouped.ready, ?_, bodied, ?_, located.framed⟩,
        located.passed some⟩
      · rw [passed.cursor, Cursor.layers_advanceBy grouped.ready]
        exact Nat.le_trans (length_skip_le _ _) grouped.few
      · rw [passed.cursor, Cursor.layers_advanceBy grouped.ready,
          ← located.skip_eq]
        exact grouped.coarse.skip _
  | @included taken rest source mixin pending some loose registered
        text inserted =>
      obtain ⟨used, part, left, lower, located⟩ :=
        grouped.framed.located grouped.nonempty
        (by rw [grouped.flatten_eq, pending]) loose.shut
      have settled := grouped.bodied mixin registered
      refine ⟨source.text :: left :: lower,
        .of_insert inserted (.start _ ?_) ?_ bodied, ?_⟩
      · rw [Cursor.layers_advanceBy grouped.ready, ← located.skip_eq]
        exact grouped.coarse.skip _
      · rw [text]
        exact located.framed.cons settled
      · rw [sizes_cons]
        exact located.shrinks (located.part_ne_nil some loose) _
  | @chose lead tail rest source pending shut cut kept inserted =>
      obtain ⟨used, part, left, lower, located⟩ :=
        grouped.framed.located grouped.nonempty
        (by
          rw [grouped.flatten_eq, pending, List.append_assoc,
            List.append_assoc]) shut
      have within : left ++ lower.flatten =
          '{' :: source.text ++ '}' :: tail ++ rest := by
        have whole := grouped.flatten_eq
        rw [pending, located.groups_eq, located.taken_eq] at whole
        simpa using whole
      obtain ⟨remaining, inside, framed, skipped⟩ :=
        located.framed.chosen within cut kept
      refine ⟨(source.text ++ remaining) :: lower,
        .of_insert inserted (.join _ ?_) framed bodied, located.chose inside⟩
      rw [Cursor.layers_advanceBy grouped.ready, ← skipped,
        ← located.skip_eq, skip_skip, ← List.length_append, ← List.append_assoc]
      exact grouped.coarse.skip _

end State.Grouped

/-- There is no endless descent of sizes when their number is bounded. -/
theorem acc_sizes (bound : Nat) : ∀ sizes : List Nat, sizes.length ≤ bound →
    Acc (fun first second => first.length ≤ bound ∧
      List.Lex (· < ·) first second) sizes := by
  have nothing (bound : Nat) :
      Acc (fun first second => first.length ≤ bound ∧
        List.Lex (· < ·) first second) ([] : List Nat) := by
    refine ⟨_, fun smaller less => ?_⟩
    cases less.2
  induction bound with
  | zero =>
      intro sizes short
      rw [List.length_eq_zero_iff.mp (Nat.le_zero.mp short)]
      exact nothing 0
  | succ bound ih =>
      intro sizes short
      cases sizes with
      | nil => exact nothing (bound + 1)
      | cons size sizes =>
          -- First by the size of the lowest group, then by the ones above it.
          induction size using Nat.strongRecOn generalizing sizes with
          | ind size lower =>
              have accessible := ih sizes (by simpa using short)
              induction accessible with
              | intro sizes _ upper =>
                  refine ⟨_, fun smaller less => ?_⟩
                  obtain ⟨fits, less⟩ := less
                  cases less with
                  | nil => exact nothing (bound + 1)
                  | rel less => exact lower _ less _ fits
                  | cons less =>
                      have shorter := Nat.le_of_succ_le_succ fits
                      exact upper _ ⟨shorter, less⟩ fits

/-- A run from framed groups ends, if no `@else if` condition on its way runs
over a brace that is not its own. -/
theorem State.Grouped.ends {environment : Environment}
    (nothing : ∀ path, (environment.loader.fetch path).content = none)
    {state : State} {groups : List Text} (grouped : state.Grouped groups)
    (orderly : ∀ reached, Reaches environment state reached → reached.Orderly) :
    ∃ fuel, (state.run environment fuel).1 ≠ .unfinished := by
  have bounded {state : State} {groups : List Text}
      (grouped : state.Grouped groups) :
      (sizes groups).length ≤ Cursor.maxSources := by
    rw [sizes, List.length_reverse, List.length_map]
    exact Nat.le_trans grouped.coarse.length_le grouped.few
  have accessible :=
    acc_sizes Cursor.maxSources (sizes groups) (bounded grouped)
  generalize same : sizes groups = measure at accessible
  induction accessible generalizing state groups with
  | intro measure _ ih =>
      subst same
      cases result : Compile.step environment state with
      | error error last => exact ⟨1, by simp [run, result]⟩
      | ok more next =>
          cases more with
          | false => exact ⟨1, by simp [run, result]⟩
          | true =>
              obtain ⟨smaller, groupedNext, less⟩ :=
                grouped.step nothing (orderly state .refl) result
              obtain ⟨fuel, ended⟩ :=
                ih (sizes smaller) ⟨bounded groupedNext, less⟩ groupedNext
                (fun reached path => orderly reached (path.head result)) rfl
              exact ⟨fuel + 1, by simpa [run, result] using ended⟩

namespace Compilation

theorem mixins_announce (environment : Environment) (compilation : Compilation)
    (file : Option Text) :
    (compilation.announce environment file).mixins = compilation.mixins := by
  obtain ⟨sheet, log, same⟩ := announce_eq environment compilation file
  rw [same]

private theorem grouped_start {compilation : Compilation}
    (bodied : compilation.mixins.Bodies Settled) (source : Text)
    (file : Option Text) :
    (compilation.start source file).Grouped [Comment.strip source] := by
  have layers : (compilation.start source file).cursor.layers =
      [Comment.strip source] :=
    Cursor.layers_ofText _ _
  refine ⟨Cursor.ready_advance _, ?_, bodied, ?_, trivial⟩
  · rw [layers, List.length_singleton]
    decide
  · rw [layers]
    exact .start _ .nil

private theorem mixins_process (environment : Environment) (fuel : Nat)
    (compilation : Compilation) (source : Text) (file : Option Text) :
    (compilation.process environment fuel source file).2.mixins =
      (((compilation.announce environment file).start source file).run
        environment fuel).2.mixins := by
  obtain ⟨log, same⟩ := process_eq environment fuel compilation source file
  rw [same]
  rfl

theorem bodied_of_reaches {environment : Environment} {start state : State}
    (bodied : start.mixins.Bodies Settled)
    (reached : State.Reaches environment start state) :
    state.mixins.Bodies Settled := by
  induction reached with
  | refl => exact bodied
  | step _ taken ih => exact (Compile.bodies_step environment).of_ok taken ih

theorem bodied_process {environment : Environment} {fuel : Nat}
    {compilation : Compilation} {source : Text} {file : Option Text}
    (bodied : compilation.mixins.Bodies Settled) :
    (compilation.process environment fuel source file).2.mixins.Bodies
      Settled := by
  have start :
      ((compilation.announce environment file).start source file).mixins.Bodies
        Settled :=
    (mixins_announce environment compilation file).symm ▸ bodied
  rw [mixins_process]
  rcases State.run_cases environment fuel
    ((compilation.announce environment file).start source file) with
      ⟨-, reached⟩ | ⟨last, reached, stopped⟩
  · exact bodied_of_reaches start reached
  · rw [stopped]
    exact Compile.bodies_step environment last (bodied_of_reaches start reached)

private theorem mixins_diagnose (compilation : Compilation) :
    compilation.diagnose.2.mixins = compilation.mixins := by
  unfold diagnose
  dsimp only
  generalize Finding.check compilation.mixins compilation.scopes = findings
  induction findings generalizing compilation with
  | nil => rfl
  | cons finding findings ih => exact ih (compilation.record (.found finding))

private theorem bodied_of_reachable {compilation : Compilation}
    (reachable : Reachable compilation) :
    compilation.mixins.Bodies Settled := by
  induction reachable with
  | new =>
      intro mixin member
      cases member
  | process environment fuel source file _ ih => exact bodied_process ih
  | processFile environment fuel files path _ ih =>
      unfold processFile
      split
      · exact bodied_process ih
      · exact ih
  | render options _ ih => exact ih
  | diagnose _ ih =>
      rw [mixins_diagnose]
      exact ih
  | reset _ _ =>
      intro mixin member
      cases member

theorem outcome_process (environment : Environment) (fuel : Nat)
    (compilation : Compilation) (source : Text) (file : Option Text) :
    (compilation.process environment fuel source file).1 =
      (((compilation.announce environment file).start source file).run
        environment fuel).1 := by
  obtain ⟨log, same⟩ := process_eq environment fuel compilation source file
  rw [same]

end Compilation

/-- Without imports, every call ends, with success or with an error: from every
compilation that calls lead to, for every stylesheet, whatever its mixins and
conditions do to each other.  The exception is a condition of an `@else if`
branch that runs over a closing brace which is not its own. -/
theorem process_ends (environment : Environment)
    (nothing : ∀ path, (environment.loader.fetch path).content = none)
    (compilation : Compilation) (reachable : Compilation.Reachable compilation)
    (source : Text) (file : Option Text)
    (orderly : ∀ state, State.Reaches environment
      ((compilation.announce environment file).start source file) state →
        state.Orderly) :
    ∃ fuel, (compilation.process environment fuel source file).1 = .finished ∨
      ∃ failure, (compilation.process environment fuel source file).1 =
        .failed failure := by
  have bodied : (compilation.announce environment file).mixins.Bodies Settled :=
    (Compilation.mixins_announce environment compilation file).symm ▸
      Compilation.bodied_of_reachable reachable
  obtain ⟨fuel, ended⟩ :=
    (Compilation.grouped_start bodied source file).ends nothing orderly
  refine ⟨fuel, ?_⟩
  rw [Compilation.outcome_process]
  cases outcome :
    (((compilation.announce environment file).start source file).run
      environment fuel).1 with
  | finished => exact .inl rfl
  | failed failure => exact .inr ⟨failure, rfl⟩
  | unfinished => exact absurd outcome ended

/-- A run that has not come to an end goes on from where it stopped. -/
theorem State.run_add (environment : Environment) (first second : Nat)
    (state : State) (going : (state.run environment first).1 = .unfinished) :
    state.run environment (first + second) =
      (state.run environment first).2.run environment second := by
  induction first generalizing state with
  | zero => rw [Nat.zero_add, run]
  | succ first ih =>
      rw [Nat.succ_add, run]
      rw [run] at going ⊢
      cases result : Compile.step environment state with
      | error error last => simp [result] at going
      | ok more next =>
          cases more with
          | false => simp [result] at going
          | true =>
              rw [result] at going
              exact ih next going

theorem State.step_of_run {environment : Environment} {state : State}
    (going : (state.run environment 1).1 = .unfinished) :
    Compile.step environment state = .ok true (state.run environment 1).2 := by
  rw [run] at going ⊢
  cases result : Compile.step environment state with
  | error error last => simp [result] at going
  | ok more next =>
      cases more with
      | false => simp [result] at going
      | true => rfl

theorem State.run_endless {environment : Environment} {holds : State → Prop}
    (goes : ∀ state, holds state →
      ∃ next, Compile.step environment state = .ok true next ∧ holds next)
    {state : State} (initially : holds state) (fuel : Nat) :
    (state.run environment fuel).1 = .unfinished := by
  induction fuel generalizing state with
  | zero => rfl
  | succ fuel ih =>
      obtain ⟨next, taken, holding⟩ := goes state initially
      rw [run, taken]
      exact ih holding

/-- A block is open, and a mixin `m` without parameters has the given body. -/
structure Registered (body : Text) (state : State) : Prop where
  inside : state.blocks ≠ []
  mixin : ∃ mixin, state.mixins.get? ['m'] = some mixin ∧ mixin.name = ['m'] ∧
    mixin.parameters = [] ∧ mixin.body = body

/-- Including the mixin passes over the inclusion and splices the body in. -/
theorem Registered.step {environment : Environment} {body rest : Text}
    {state : State} (registered : Registered body state)
    (here : state.At ("@include".toList ++ ([' '] ++ (['m'] ++ ';' :: rest)))) :
    ∃ (entered : State) (source : Source), source.text = body ++ ['}'] ∧
      entered.cursor = (state.pass 11).cursor ∧ entered.At rest ∧
        Registered body entered ∧
      Compile.step environment state =
        (do Compile.splice source; return true) entered := by
  obtain ⟨mixin, found, name, unparametrized, text⟩ := registered.mixin
  have directed :=
    @Compile.directive_include state _ environment _ here (by decide)
    (by simp [isNameChar]) (by simp [isSpace]) registered.inside
  have atName := here.pass.pass
  rw [State.pass_pass] at atName
  obtain ⟨entered, file, included, cursor, after, blocks, mixins⟩ :=
    @Compile.includeDirective_at _ _
    environment _ _ atName (by simp) (by decide) found unparametrized
  refine ⟨entered,
    { text := mixin.body ++ ['}'], file := mixin.file, line := mixin.line },
    congrArg (· ++ ['}']) text, ?_, after,
    ⟨blocks, mixin.recordUse file, ?_, ?_⟩, ?_⟩
  · rw [cursor, State.pass_pass]
    rfl
  · have named : (mixin.recordUse file).name = ['m'] := by
      rw [Mixin.name_recordUse, name]
    rw [← named] at found ⊢
    exact mixins ▸ Mixins.get?_replace found
  · rw [Mixin.name_recordUse, Mixin.parameters_recordUse, Mixin.body_recordUse]
    exact ⟨name, unparametrized, text⟩
  · rw [Compile.step_directive here, bind_apply, directed, included]
    rfl

namespace Divergence

/-- The statements after which a mixin is read again. -/
def again : Text :=
  "@include m;y\x7b\x7d".toList

/-- The body of the mixin: the condition of its second branch goes on behind
it. -/
def body : Text :=
  "@if true\x7b".toList ++ again ++ "\x7d@else if x".toList

/-- In front of an inclusion. -/
structure Including (state : State) : Prop extends Registered body state where
  ready : state.cursor.Ready
  layers : state.cursor.layers = [again ++ ['}']] ∨
    state.cursor.layers = [again, ['}']]

/-- In front of the body, with the text after the inclusion behind it. -/
structure Choosing (state : State) : Prop extends Registered body state where
  ready : state.cursor.Ready
  layers : state.cursor.layers = [body ++ ['}'], again.drop 11 ++ ['}']] ∨
    state.cursor.layers = [body ++ ['}'], again.drop 11, ['}']]

theorem step_including {environment : Environment} {state : State}
    (including : Including state) :
    ∃ next, Compile.step environment state = .ok true next ∧ Choosing next := by
  have here : state.At ("@include".toList ++ ([' '] ++ (['m'] ++ ';' ::
      "y\x7b\x7d\x7d".toList))) := by
    refine ⟨including.ready, ?_⟩
    rw [← Cursor.flatten_layers]
    rcases including.layers with layers | layers
    · rw [layers]
      decide
    · rw [layers]
      decide
  obtain ⟨entered, source, text, cursor, -, registered, taken⟩ :=
    @Registered.step environment _ _ _ including.toRegistered here
  have passed : entered.cursor.layers = skip 11 state.cursor.layers := by
    rw [cursor]
    exact Cursor.layers_advanceBy including.ready 11
  have room : entered.cursor.layers.length < Cursor.maxSources := by
    rw [passed]
    rcases including.layers with layers | layers
    · rw [layers]
      decide
    · rw [layers]
      decide
  obtain ⟨after, spliced, ready, layers⟩ := Compile.splice_room source room
  refine ⟨{ entered with cursor := after }, ?_,
    ⟨registered.inside, registered.mixin⟩, ready, ?_⟩
  · rw [taken, bind_apply, spliced]
    rfl
  · change after.layers = _ ∨ after.layers = _
    rw [layers, passed, text]
    rcases including.layers with layers | layers
    · rw [layers]
      exact .inl (by decide)
    · rw [layers]
      exact .inr (by decide)

theorem at_choosing {state : State} (choosing : Choosing state) :
    state.At
      ("@if".toList ++ ([' '] ++ ("true".toList ++ '{' :: (again ++ '}' ::
      ("@else".toList ++ ' ' :: ("if".toList ++ (" x\x7dy".toList ++ '{' ::
        ([] ++ '}' :: ['}'])))))))) := by
  refine ⟨choosing.ready, ?_⟩
  rw [← Cursor.flatten_layers]
  rcases choosing.layers with layers | layers
  · rw [layers]
    decide
  · rw [layers]
    decide

/-- The second condition takes all that the inclusion was followed by. -/
theorem directive_choosing {environment : Environment} {state : State}
    (choosing : Choosing state) :
    ∃ (source : Source) (count : Nat), source.text = again ∧
      Compile.directive environment state =
        Compile.splice source (state.pass count) ∧
      (state.pass count).cursor.layers = [['}']] := by
  have here := at_choosing choosing
  obtain ⟨source, count, text, -, chosen, counted⟩ :=
    @Compile.conditionDirective_chosen _ _
    environment _ _ _ _ _ here.pass.pass (fun _ => rfl) rfl (fun _ => rfl)
    Compile.resolveValue_true Compile.evaluateCondition_true (by decide)
      (fun _ => rfl) rfl
    (fun _ => rfl) (by decide) (by decide) (by decide)
  rw [State.pass_pass, State.pass_pass, counted] at chosen
  have directed :=
    @Compile.directive_if state _ environment _ here (by decide) (by decide)
    (by decide)
  refine ⟨source, _, text, directed.trans chosen, ?_⟩
  change (state.cursor.advanceBy _).layers = _
  rw [Cursor.layers_advanceBy choosing.ready]
  rcases choosing.layers with layers | layers
  · rw [layers]
    decide
  · rw [layers]
    decide

theorem step_choosing {environment : Environment} {state : State}
    (choosing : Choosing state) :
    ∃ next, Compile.step environment state = .ok true next ∧
      Including next := by
  obtain ⟨source, count, text, directed, remaining⟩ :=
    @directive_choosing environment _ choosing
  obtain ⟨after, spliced, ready, layers⟩ :=
    @Compile.splice_room (state.pass count) source (by
    rw [remaining]
    decide)
  refine ⟨{ state.pass count with cursor := after }, ?_,
    ⟨choosing.inside, choosing.mixin⟩, ready, ?_⟩
  · rw [Compile.step_directive (at_choosing choosing), bind_apply,
      directed, spliced]
    rfl
  · change after.layers = _ ∨ after.layers = _
    rw [layers, remaining, text]
    exact .inr (by decide)

theorem run_including {environment : Environment} {state : State}
    (including : Including state) (fuel : Nat) :
    (state.run environment fuel).1 = .unfinished := by
  refine @State.run_endless environment
    (fun state => Including state ∨ Choosing state) ?_ state
    (.inl including) fuel
  rintro state (including | choosing)
  · obtain ⟨next, taken, choosing⟩ :=
      @step_including environment state including
    exact ⟨next, taken, .inr choosing⟩
  · obtain ⟨next, taken, including⟩ := @step_choosing environment state choosing
    exact ⟨next, taken, .inl including⟩

/-- The source that defines the mixin and includes it. -/
def source : Text :=
  "@mixin m\x7b".toList ++ body ++ "\x7d.a\x7b".toList ++ again ++ "\x7d".toList

/-- The state in front of the first inclusion. -/
def entrance : State :=
  (((Compilation.announce {} {} none).start source none).run {} 2).2

private theorem including_entrance : Including entrance where
  ready := by
    intro ended
    have current : entrance.cursor.current = some '@' := by decide +kernel
    rw [current] at ended
    contradiction
  inside := by
    have opened : entrance.blocks.isEmpty = false := by decide +kernel
    simpa using opened
  mixin := by
    have registered : (entrance.mixins.get? ['m']).map
        (fun mixin => (mixin.name, mixin.parameters, mixin.body)) =
          some (['m'], [], body) := by
      decide +kernel
    obtain ⟨mixin, found, same⟩ := Option.map_eq_some_iff.mp registered
    rw [Prod.mk.injEq, Prod.mk.injEq] at same
    exact ⟨mixin, found, same⟩
  layers := .inl (by decide +kernel)

theorem run_entrance (fuel : Nat) :
    (((Compilation.announce {} {} none).start source none).run {}
      (2 + fuel)).1 =
      (entrance.run {} fuel).1 := by
  rw [State.run_add _ _ _ _ (by decide +kernel)]
  rfl

end Divergence

/-- A run of which nothing is left out can go on for ever: the condition of an
`@else if` branch takes the brace that closes the mixin, and with it the block
of every inclusion. -/
theorem process_endless :
    (∀ path, (({} : Environment).loader.fetch path).content = none) ∧
      ∀ fuel, (Compilation.process {} fuel {} Divergence.source none).1 =
        .unfinished := by
  refine ⟨fun _ => rfl, fun fuel => ?_⟩
  rw [Compilation.outcome_process]
  match fuel with
  | 0 => rfl
  | 1 => rfl
  | fuel + 2 =>
      rw [Nat.add_comm, Divergence.run_entrance]
      exact Divergence.run_including Divergence.including_entrance fuel

namespace Recursion

/-- The statement that includes the mixin. -/
def again : Text :=
  "@include m;".toList

/-- The body of the mixin, which includes the mixin in its first branch. -/
def body : Text :=
  "@if true\x7b".toList ++ again ++ "\x7d@else if x\x7b\x7d".toList

def source : Text :=
  "@mixin m\x7b".toList ++ body ++ "\x7d.a\x7b".toList ++ again ++ "\x7d".toList

/-- In front of an inclusion, or of the body. -/
inductive Recursing (state : State) : Prop where
  | including {rest : Text} (registered : Registered body state)
      (here : state.At ("@include".toList ++ ([' '] ++ (['m'] ++ ';' :: rest))))
  | choosing {rest : Text} (registered : Registered body state)
      (here : state.At
        ("@if".toList ++ ([' '] ++ ("true".toList ++ '{' :: (again ++ '}' ::
        ("@else".toList ++ ' ' :: ("if".toList ++ (" x".toList ++ '{' ::
          ([] ++ '}' :: '}' :: rest)))))))))

theorem Recursing.orderly {state : State} (recursing : Recursing state) :
    state.Orderly := by
  cases recursing with
  | including _ here =>
      have none : state.elseConditions = [] := by
        rw [State.elseConditions, here.pending]
        rfl
      simp [State.Orderly, none]
  | choosing _ here =>
      have one : state.elseConditions = [" x".toList] := by
        rw [State.elseConditions, here.pending]
        rfl
      simp only [State.Orderly, one, List.mem_singleton, forall_eq]
      decide

private theorem body_append (rest : Text) :
    (body ++ ['}']) ++ rest =
      "@if".toList ++ ([' '] ++ ("true".toList ++ '{' :: (again ++ '}' ::
      ("@else".toList ++ ' ' :: ("if".toList ++ (" x".toList ++ '{' ::
        ([] ++ '}' :: '}' :: rest))))))) :=
  rfl

private theorem again_append (rest : Text) :
    again ++ rest = "@include".toList ++ ([' '] ++ (['m'] ++ ';' :: rest)) :=
  rfl

theorem Recursing.step_including {environment : Environment}
    {state next : State} {rest : Text} (registered : Registered body state)
    (here : state.At ("@include".toList ++ ([' '] ++ (['m'] ++ ';' :: rest))))
    (taken : Compile.step environment state = .ok true next) :
    Recursing next := by
  obtain ⟨entered, source, text, -, entering, registered, same⟩ :=
    @Registered.step environment _ _ _ registered here
  rw [same] at taken
  obtain ⟨value, middle, spliced, final⟩ := bind_ok taken
  cases final
  obtain ⟨standing, blocks, mixins⟩ := Compile.at_splice spliced entering
  rw [text, body_append] at standing
  exact .choosing ⟨blocks ▸ registered.inside, mixins ▸ registered.mixin⟩
    standing

theorem Recursing.step_choosing {environment : Environment}
    {state next : State} {rest : Text} (registered : Registered body state)
    (here : state.At
      ("@if".toList ++ ([' '] ++ ("true".toList ++ '{' :: (again ++ '}' ::
      ("@else".toList ++ ' ' :: ("if".toList ++ (" x".toList ++ '{' ::
        ([] ++ '}' :: '}' :: rest)))))))))
    (taken : Compile.step environment state = .ok true next) :
    Recursing next := by
  obtain ⟨source, count, text, passed, chosen, -⟩ :=
    @Compile.conditionDirective_chosen _ _
    environment _ _ _ _ _ here.pass.pass (fun _ => rfl) rfl (fun _ => rfl)
    Compile.resolveValue_true Compile.evaluateCondition_true (by decide)
      (fun _ => rfl) rfl
    (fun _ => rfl) (by simp [isSpace]) (by simp) (by decide)
  have directed := @Compile.directive_if state _ environment _ here (by decide)
    (by simp [isNameChar]) (by rintro c ⟨⟩; rfl)
  rw [Compile.step_directive here] at taken
  obtain ⟨value, middle, spliced, final⟩ := bind_ok taken
  cases final
  rw [directed, ← State.pass_pass, chosen] at spliced
  obtain ⟨standing, blocks, mixins⟩ := Compile.at_splice spliced passed
  rw [text, again_append] at standing
  exact .including ⟨blocks ▸ registered.inside, mixins ▸ registered.mixin⟩
    standing

theorem Recursing.step {environment : Environment} {state next : State}
    (recursing : Recursing state)
    (taken : Compile.step environment state = .ok true next) :
    Recursing next := by
  cases recursing with
  | including registered here => exact step_including registered here taken
  | choosing registered here => exact step_choosing registered here taken

def start : State :=
  (Compilation.announce {} {} none).start source none

/-- The state after the definition of the mixin. -/
def defined : State :=
  (start.run {} 1).2

/-- The state in front of the first inclusion. -/
def opened : State :=
  (defined.run {} 1).2

private theorem recursing_opened : Recursing opened := by
  refine @Recursing.including _ ['}'] ⟨?_, ?_⟩ ⟨?_, by decide +kernel⟩
  · have inside : opened.blocks.isEmpty = false := by decide +kernel
    simpa using inside
  · have registered : (opened.mixins.get? ['m']).map
        (fun mixin => (mixin.name, mixin.parameters, mixin.body)) =
          some (['m'], [], body) := by
      decide +kernel
    obtain ⟨mixin, found, same⟩ := Option.map_eq_some_iff.mp registered
    rw [Prod.mk.injEq, Prod.mk.injEq] at same
    exact ⟨mixin, found, same⟩
  · intro ended
    have current : opened.cursor.current = some '@' := by decide +kernel
    rw [current] at ended
    contradiction

private theorem reaches_cases {state : State}
    (reached : State.Reaches {} start state) :
    state = start ∨ state = defined ∨ Recursing state := by
  induction reached with
  | refl => exact .inl rfl
  | step _ taken ih =>
      rcases ih with rfl | rfl | recursing
      · have first := @State.step_of_run {} start (by rfl)
        rw [first] at taken
        cases taken
        exact .inr (.inl rfl)
      · have second := @State.step_of_run {} defined (by decide +kernel)
        rw [second] at taken
        cases taken
        exact .inr (.inr recursing_opened)
      · exact .inr (.inr (recursing.step taken))

theorem orderly_of_reaches {state : State}
    (reached : State.Reaches {} start state) :
    state.Orderly := by
  rcases reaches_cases reached with rfl | rfl | recursing
  · have none : start.elseConditions = [] := by rfl
    simp [State.Orderly, none]
  · have none : defined.elseConditions = [] := by rfl
    simp [State.Orderly, none]
  · exact recursing.orderly

end Recursion

/-- A mixin that includes itself in a branch. -/
theorem process_ends_recursion :
    (∀ state,
      State.Reaches {}
        ((Compilation.announce {} {} none).start Recursion.source none)
      state → state.Orderly) ∧
    ∃ fuel,
      (Compilation.process {} fuel {} Recursion.source none).1 = .finished ∨
      ∃ failure, (Compilation.process {} fuel {} Recursion.source none).1 =
        .failed failure :=
  ⟨fun _ => Recursion.orderly_of_reaches, process_ends {} (fun _ => rfl) {} .new
    Recursion.source none (fun _ => Recursion.orderly_of_reaches)⟩

end Stylesheet
