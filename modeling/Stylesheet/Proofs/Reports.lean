import Stylesheet.Proofs.Alike
import Stylesheet.Proofs.FunctionCalls

/-!
# Reports make no difference

Some options say what is reported: whether calls to unknown functions are warned
about, whether comments are kept, and how rules for debugging are rendered.
Comments stand in the output between the rules, where they keep properties apart
that would share a rule, and warnings come up in the middle of values.  Still,
two compilations that differ in nothing else give the same results, and output
the same properties for the same selectors.
-/

namespace Stylesheet

/-- The options treat calls in the same way; they may report and render
differently. -/
structure Options.SameRules (options other : Options) : Prop where
  host : options.functions.host = other.functions.host
  fail : options.functions.unknown.fail = other.functions.unknown.fail
  keep : options.functions.unknown.keep = other.functions.unknown.keep

structure Environment.SameRules (environment other : Environment) : Prop where
  options : environment.options.SameRules other.options
  loader : environment.loader = other.loader

namespace Functions

/-- Calls are resolved to the same value, whether unknown ones are reported or
not. -/
def SameValue : Except Error Resolved → Except Error Resolved → Prop :=
  Agreeing fun resolved shown => resolved.value = shown.value

theorem SameValue.andThen {first second : Except Error Resolved}
    {next further : Resolved → Except Error Resolved} :
    SameValue first second →
    (∀ resolved shown, resolved.value = shown.value →
      SameValue (next resolved) (further shown)) →
    SameValue
      (match first with
        | .ok resolved => next resolved
        | .error error => .error error)
      (match second with
        | .ok resolved => further resolved
        | .error error => .error error) := by
  intro leading following
  cases first with
  | ok resolved =>
      cases second with
      | ok shown => exact following resolved shown leading
      | error fault => exact leading.elim
  | error error =>
      cases second with
      | ok shown => exact leading.elim
      | error fault => exact leading

variable {options other : Options}

private theorem sameValue_finish (same : options.SameRules other) (name : Text)
    (inner shown : Resolved) (value : inner.value = shown.value) :
    SameValue (options.functions.finish name inner)
      (other.functions.finish name shown) := by
  unfold finish
  rw [same.host, same.fail, same.keep, value]
  split
  · split
    · exact rfl
    · exact rfl
  · split
    · split
      · exact rfl
      · exact rfl
    · split
      · exact rfl
      · split
        · exact rfl
        · exact rfl

private theorem sameValue_resolveAfter (same : options.SameRules other)
    (quoting : Quoting) (out text : Text) :
    SameValue (options.functions.resolveAfter quoting out text)
      (other.functions.resolveAfter quoting out text) := by
  induction quoting, out, text using resolving_induction with
  | nil quoting out =>
      rw [resolveAfter_nil, resolveAfter_nil]
      exact rfl
  | char quoting out c rest plain ih =>
      rw [resolveAfter_char _ plain, resolveAfter_char _ plain]
      exact ih
  | lost quoting out c rest starts unclosed =>
      rw [resolveAfter_open _ starts unclosed,
        resolveAfter_open _ starts unclosed]
      exact rfl
  | call quoting out c rest inner after starts found arguments following =>
      rw [resolveAfter_call _ starts found, resolveAfter_call _ starts found]
      refine SameValue.andThen ?_ fun call shown value => ?_
      · unfold call
        split
        · exact rfl
        · exact arguments.andThen (sameValue_finish same _)
      · unfold resolveBehind
        rw [value]
        exact (following _).andThen fun _ _ value => value

end Functions

/-- The properties of a definition with their selectors. -/
def Definition.entries : Definition → List (List Text × Property)
  | .rule selectors properties => properties.map (selectors, ·)
  | .comment _ => []

namespace Sheet

/-- The properties of a sheet with their selectors, however they are
gathered. -/
def entries (sheet : Sheet) : List (List Text × Property) :=
  sheet.toList.flatMap Definition.entries

theorem entries_addProperty (sheet : Sheet) (selectors : List Text)
    (property : Property) :
    (sheet.addProperty selectors property).entries =
      sheet.entries ++ [(selectors, property)] := by
  unfold entries toList addProperty
  split
  · rename_i last properties older newest
    split
    · rename_i same
      obtain rfl : last = selectors := by simpa using same
      simp [newest, Definition.entries]
    · simp [Definition.entries]
  · simp [Definition.entries]

theorem entries_addComment (sheet : Sheet) (text : Text) :
    (sheet.addComment text).entries = sheet.entries := by
  simp [entries, toList, addComment, Definition.entries]

end Sheet

/-- The same variables, mixins and dependencies, and the same properties in the
output. -/
structure Compilation.SameRules (compilation other : Compilation) : Prop where
  scopes : compilation.scopes = other.scopes
  mixins : compilation.mixins = other.mixins
  dependencies : compilation.dependencies = other.dependencies
  entries : compilation.sheet.entries = other.sheet.entries

/-- The same place in the same text, too. -/
structure State.SameRules (state other : State) : Prop
    extends Compilation.SameRules state.toCompilation other.toCompilation where
  cursor : state.cursor = other.cursor
  blocks : state.blocks = other.blocks

theorem State.sharesScopes_sameRules : SharesScopes State.SameRules where
  scopes same := same.scopes
  resolved same _ _ _ := { same with scopes := rfl }

namespace Compile

open State

section Steps

variable {α : Type}

theorem sameRules_reading (reader : Reader α) :
    Steady State.SameRules (reading reader) := by
  intro state other same
  unfold reading
  rw [same.cursor]
  cases reader other.cursor with
  | ok value cursor => exact ⟨rfl, { same with cursor := rfl }⟩
  | error error cursor => exact ⟨rfl, { same with cursor := rfl }⟩

theorem sameRules_record (event happening : Event) :
    Parallel State.SameRules Eq (record event) (record happening) :=
  parallel_record sharesScopes_sameRules event happening

/-- Warnings make no difference. -/
theorem sameRules_warnings {β : Type} (warning : α → Warning)
    (caution : β → Warning) (items : List α) (others : List β) :
    Parallel State.SameRules Eq (items.forM fun item => warn (warning item))
      (others.forM fun item => warn (caution item)) := by
  intro state other same
  obtain ⟨log, first⟩ := forM_warn warning items state
  obtain ⟨note, second⟩ := forM_warn caution others other
  rw [first, second]
  exact ⟨rfl, { same with }⟩

theorem sameRules_openBlock (block : Block) :
    Steady State.SameRules (openBlock block) :=
  .modifying fun _ _ same =>
    { same with
      scopes := congrArg Scopes.push same.scopes
      blocks := congrArg (block :: ·) same.blocks }

theorem sameRules_splice (source : Source) :
    Steady State.SameRules (splice source) := by
  refine .getThen fun seen shown same => ?_
  rw [same.cursor]
  exact (steady_check _).after fun _ => .modifying fun _ _ same =>
    { same with cursor := rfl }

theorem sameRules_closeBlock : Steady State.SameRules closeBlock := by
  refine .getThen fun seen shown same => ?_
  rw [same.blocks]
  split
  · exact .throw _
  · exact Parallel.after
      (.modifying fun _ _ same => { same with blocks := rfl }) fun _ =>
        (steady_resolving State.sharesScopes_sameRules _).after fun _ =>
          sameRules_reading _

/-- A property is added to the same entries, whether it starts a rule or not. -/
theorem sameRules_addProperty (block : Block) (name value : Text) :
    Steady State.SameRules (addProperty block name value) := by
  intro state other same
  obtain ⟨log, first⟩ := addProperty_ok block name value state
  obtain ⟨note, second⟩ := addProperty_ok block name value other
  rw [first, second]
  refine ⟨rfl, { same with entries := ?_ }⟩
  rw [Sheet.entries_addProperty, Sheet.entries_addProperty, same.entries]

theorem sameRules_mixinName : Steady State.SameRules mixinName :=
  (sameRules_reading _).after fun _ => .onlyIf (steady_form _)
    ((sameRules_reading _).after fun _ => .pure rfl)

theorem sameRules_mixinBody (name : Text) (parameters : List Text) :
    Steady State.SameRules (mixinBody name parameters) := by
  refine .getThen fun seen shown same => ?_
  rw [same.cursor]
  refine (sameRules_reading _).after fun body =>
    .getThen fun seen shown same => ?_
  rw [same.mixins]
  refine Parallel.after (.modifying fun _ _ same =>
    { same with mixins := by rw [same.mixins] }) fun _ =>
      (sameRules_record _ _).after fun _ => ?_
  split
  · exact steady_warn sharesScopes_sameRules _
  · exact .pure rfl

theorem sameRules_mixinDirective : Steady State.SameRules mixinDirective := by
  rw [mixinDirective_eq]
  refine sameRules_mixinName.after fun name =>
    .getThen fun seen shown same => ?_
  rw [same.cursor]
  split
  · exact (sameRules_reading _).after fun list => (steady_check _).after
      fun parameters =>
      (sameRules_reading _).after fun _ => sameRules_mixinBody name parameters
  · exact sameRules_mixinBody name []

theorem sameRules_argumentList? : Steady State.SameRules argumentList? := by
  refine .getThen fun seen shown same => ?_
  rw [same.cursor]
  split
  · exact (sameRules_reading _).after fun list => (sameRules_reading _).after
      fun _ => .pure rfl
  · exact .pure rfl

theorem sameRules_endInclude (name : Text) :
    Steady State.SameRules (endInclude name) := by
  refine .getThen fun seen shown same => ?_
  rw [same.cursor]
  split
  · exact sameRules_reading _
  · exact .pure rfl
  · exact .pure rfl
  · exact steady_form _

theorem sameRules_branchBody : Steady State.SameRules branchBody := by
  refine .getThen fun seen shown same => ?_
  rw [same.cursor]
  exact (sameRules_reading _).after fun _ => .pure rfl

theorem sameRules_spliceChosen (chosen : Option Source) :
    Steady State.SameRules (spliceChosen chosen) := by
  unfold spliceChosen
  split
  · exact .pure rfl
  · split
    · exact .pure rfl
    · exact sameRules_splice _

end Steps

section Environments

variable {environment other : Environment}

/-- A comment is no entry, kept or not. -/
theorem sameRules_comment (text shown : Text) :
    Parallel State.SameRules Eq (comment environment text)
      (comment other shown) := by
  refine .modifying fun state final same => ?_
  split
  · split
    · refine { same with entries := ?_ }
      rw [Sheet.entries_addComment, Sheet.entries_addComment, same.entries]
    · exact
        { same with entries := by rw [Sheet.entries_addComment, same.entries] }
  · split
    · exact
        { same with entries := by rw [Sheet.entries_addComment, same.entries] }
    · exact same

variable (agree : environment.SameRules other)
include agree

theorem sameRules_finishValue (text : Text) :
    Parallel State.SameRules Eq (finishValue environment text)
      (finishValue other text) := by
  refine (steady_resolving sharesScopes_sameRules _).after fun substituted => ?_
  refine
    (parallel_check (Functions.sameValue_resolveAfter agree.options .outside []
    substituted)).bind fun resolved shown value => ?_
  refine (sameRules_warnings _ _ _ _).after fun _ => ?_
  rw [value]
  exact .pure rfl

theorem sameRules_fill (template : Template) :
    Parallel State.SameRules Eq (fill environment template)
      (fill other template) := by
  induction template with
  | done => exact .pure rfl
  | char c rest ih => exact ih.after fun _ => .pure rfl
  | hole inner rest innerSame restSame =>
      exact innerSame.after fun _ =>
        (sameRules_finishValue agree _).after fun _ =>
        restSame.after fun _ => .pure rfl
  | broken => exact steady_form _

theorem sameRules_interpolate (text : Text) :
    Parallel State.SameRules Eq (interpolate environment text)
      (interpolate other text) :=
  sameRules_fill agree _

theorem sameRules_resolveValue (text : Text) :
    Parallel State.SameRules Eq (resolveValue environment text)
      (resolveValue other text) :=
  (sameRules_interpolate agree text).after fun _ =>
    sameRules_finishValue agree _

theorem sameRules_variableStatement :
    Parallel State.SameRules Eq (variableStatement environment)
      (variableStatement other) := by
  refine (sameRules_reading _).after fun _ =>
    (sameRules_reading _).after fun name =>
    .onlyIf (steady_form _) ?_
  refine (sameRules_reading _).after fun _ =>
    (sameRules_reading _).after fun _ =>
    (sameRules_reading _).after fun raw => ?_
  refine (sameRules_resolveValue agree _).after fun value =>
    .getThen fun seen shown same => ?_
  rw [same.scopes]
  refine Parallel.after (.modifying fun _ _ same => { same with scopes := rfl })
    fun _ => ?_
  exact .onlyIf (sameRules_record _ _) (sameRules_reading _)

theorem sameRules_blockOf (head : Text) :
    Parallel State.SameRules Eq (blockOf environment head)
      (blockOf other head) := by
  refine .getThen fun seen shown same => ?_
  rw [same.blocks]
  dsimp only
  split
  · split
    · exact steady_form _
    · exact (sameRules_interpolate agree _).after fun _ => .pure rfl
  · exact (sameRules_interpolate agree _).after fun _ =>
      (steady_check _).after fun _ =>
      (steady_check _).after fun _ => .pure rfl

theorem sameRules_blockStatement :
    Parallel State.SameRules Eq (blockStatement environment)
      (blockStatement other) :=
  (sameRules_reading _).after fun _ =>
    (sameRules_blockOf agree _).after fun _ =>
    (sameRules_reading _).after fun _ => sameRules_openBlock _

theorem sameRules_declaration :
    Parallel State.SameRules Eq (declaration environment)
      (declaration other) := by
  refine (sameRules_reading _).after fun raw =>
    .getThen fun seen shown same => ?_
  rw [same.blocks]
  split
  · exact steady_form _
  · split
    · exact steady_form _
    · refine (sameRules_interpolate agree _).after fun name =>
        .onlyIf (steady_form _) ?_
      refine (sameRules_resolveValue agree _).after fun value =>
        .onlyIf (steady_form _) ?_
      exact (sameRules_addProperty _ _ _).after fun _ => sameRules_reading _

theorem sameRules_statement :
    Parallel State.SameRules Eq (statement environment) (statement other) := by
  refine .getThen fun seen shown same => ?_
  rw [same.cursor]
  split
  · exact sameRules_blockStatement agree
  · exact sameRules_declaration agree
  · exact sameRules_declaration agree
  · exact sameRules_declaration agree

theorem sameRules_includeDirective :
    Parallel State.SameRules Eq (includeDirective environment)
      (includeDirective other) := by
  rw [includeDirective_eq, includeDirective_eq]
  refine sameRules_mixinName.after fun name =>
    sameRules_argumentList?.after fun list =>
    (sameRules_endInclude name).after fun _ =>
      .getThen fun seen shown same => ?_
  rw [same.blocks]
  refine (sameRules_openBlock _).after fun _ =>
    (Parallel.mapM fun _ => sameRules_resolveValue agree _).after
      fun arguments =>
      (sameRules_record _ _).after fun _ =>
        (sameRules_comment _ _).after fun _ =>
        .getThen fun seen shown same => ?_
  rw [same.mixins, same.cursor, same.scopes]
  refine (steady_check _).after fun (expansion, mixins, scopes) => ?_
  exact Parallel.after
    (.modifying fun _ _ same => { same with mixins := rfl, scopes := rfl })
    fun _ => (sameRules_record _ _).after fun _ => sameRules_splice _

theorem sameRules_importFile (path : Text) :
    Parallel State.SameRules Eq (importFile environment path)
      (importFile other path) := by
  refine (sameRules_record _ _).after fun _ =>
    (sameRules_comment _ _).after fun _ => ?_
  rw [agree.loader]
  refine (Parallel.forM fun _ => sameRules_record _ _).after fun _ => ?_
  split
  · exact .throw _
  · split
    · exact sameRules_splice _
    · refine Parallel.after (.modifying fun state final same => ?_) fun _ =>
        sameRules_splice _
      rw [same.dependencies]
      split
      · exact same
      · exact { same with dependencies := rfl }

theorem sameRules_importDirective :
    Parallel State.SameRules Eq (importDirective environment)
      (importDirective other) :=
  (sameRules_reading _).after fun _ => (sameRules_reading _).after fun _ =>
    (sameRules_interpolate agree _).after fun _ =>
      (steady_check _).after fun _ =>
      .forM fun _ => sameRules_importFile agree _

theorem sameRules_branch (asked : Bool) :
    Parallel State.SameRules Eq (branch environment asked)
      (branch other asked) := by
  refine (sameRules_reading _).after fun condition =>
    .getThen fun seen shown same => ?_
  rw [same.cursor]
  refine .onlyIf (steady_form _) ?_
  dsimp only
  split
  · exact (sameRules_resolveValue agree _).after fun text =>
      (steady_evaluateCondition text).after fun _ =>
        sameRules_branchBody.after fun _ => .pure rfl
  · exact Parallel.after (.pure rfl) fun _ => sameRules_branchBody.after
      fun _ => .pure rfl

theorem sameRules_elseBranches (fuel : Nat) (chosen : Option Source) :
    Parallel State.SameRules Eq (elseBranches environment fuel chosen)
      (elseBranches other fuel chosen) := by
  induction fuel generalizing chosen with
  | zero => exact .pure rfl
  | succ fuel ih =>
      refine (sameRules_reading _).after fun _ => (sameRules_reading _).after
        fun another => ?_
      split
      · refine (sameRules_reading _).after fun _ => (sameRules_reading _).after
          fun conditional => ?_
        split
        · exact (sameRules_branch agree _).after fun _ => ih _
        · exact sameRules_branchBody.after fun _ => .pure rfl
      · exact .pure rfl

theorem sameRules_conditionDirective :
    Parallel State.SameRules Eq (conditionDirective environment)
      (conditionDirective other) := by
  rw [conditionDirective_eq, conditionDirective_eq]
  refine (sameRules_branch agree true).after fun first =>
    .getThen fun seen shown same => ?_
  rw [same.cursor]
  exact (sameRules_elseBranches agree _ first).after fun _ =>
    sameRules_spliceChosen _

theorem sameRules_directive :
    Parallel State.SameRules Eq (directive environment) (directive other) := by
  refine (sameRules_reading _).after fun _ =>
    (sameRules_reading _).after fun name =>
    (sameRules_reading _).after fun _ => .getThen fun seen shown same => ?_
  rw [same.blocks]
  dsimp only
  split
  · split
    · exact steady_form _
    · exact sameRules_mixinDirective
  · split
    · split
      · exact sameRules_includeDirective agree
      · exact steady_form _
    · split
      · exact sameRules_importDirective agree
      · split
        · exact sameRules_conditionDirective agree
        · exact .throw _

/-- A statement does the same to states with the same rules. -/
theorem sameRules_step :
    Parallel State.SameRules Eq (step environment) (step other) := by
  refine (sameRules_reading _).after fun _ => .getThen fun seen shown same => ?_
  rw [same.cursor]
  split
  · refine .getThen fun seen shown same => ?_
    rw [same.blocks]
    split
    · exact .pure rfl
    · exact steady_form _
  · exact sameRules_closeBlock.after fun _ => .pure rfl
  · exact (sameRules_reading _).after fun _ => .pure rfl
  · exact (sameRules_variableStatement agree).after fun _ => .pure rfl
  · exact (sameRules_directive agree).after fun _ => .pure rfl
  · exact (sameRules_statement agree).after fun _ => .pure rfl

end Environments

end Compile

variable {environment other : Environment}

/-- Runs end in the same way at the same place. -/
theorem State.SameRules.run (agree : environment.SameRules other) (fuel : Nat)
    {state twin : State} (same : state.SameRules twin) :
    (state.run environment fuel).1 = (twin.run other fuel).1 ∧
      (state.run environment fuel).2.SameRules (twin.run other fuel).2 := by
  induction fuel generalizing state twin with
  | zero => exact ⟨rfl, same⟩
  | succ fuel ih =>
      have taken := Compile.sameRules_step agree state twin same
      rw [State.run, State.run]
      cases left : Compile.step environment state with
      | ok more after =>
          obtain ⟨further, final, right, rfl, next⟩ := (left ▸ taken).ok
          rw [right]
          cases more with
          | true => exact ih next
          | false => exact ⟨rfl, next⟩
      | error error after =>
          cases right : Compile.step other twin with
          | ok further final =>
              rw [left, right] at taken
              exact taken.elim
          | error fault final =>
              rw [left, right] at taken
              obtain ⟨rfl, next⟩ := taken
              refine ⟨?_, next⟩
              dsimp only
              rw [next.cursor]

namespace Compilation

theorem SameRules.announce {compilation twin : Compilation}
    (same : compilation.SameRules twin) (file : Option Text) :
    (compilation.announce environment file).SameRules
      (twin.announce other file) := by
  have silent (environment : Environment) (compilation : Compilation) :
      (compilation.announce environment file).sheet.entries =
        compilation.sheet.entries := by
    unfold Compilation.announce
    split
    · dsimp only
      split
      · exact Sheet.entries_addComment _ _
      · rfl
    · rfl
  obtain ⟨sheet, log, first⟩ := announce_eq environment compilation file
  obtain ⟨page, note, second⟩ := announce_eq other twin file
  refine ⟨?_, ?_, ?_, ?_⟩
  · rw [first, second]
    exact same.scopes
  · rw [first, second]
    exact same.mixins
  · rw [first, second]
    exact same.dependencies
  · rw [silent, silent, same.entries]

/-- Stylesheets compile with the same result, at whatever place it is. -/
theorem SameRules.process (agree : environment.SameRules other)
    {compilation twin : Compilation}
    (same : compilation.SameRules twin) (fuel : Nat) (source : Text)
    (file : Option Text) :
    (compilation.process environment fuel source file).1 =
        (twin.process other fuel source file).1 ∧
      (compilation.process environment fuel source file).2.SameRules
        (twin.process other fuel source file).2 := by
  have started :
      ((compilation.announce environment file).start source file).SameRules
      ((twin.announce other file).start source file) :=
    { same.announce file with cursor := rfl, blocks := rfl }
  obtain ⟨outcome, state⟩ := started.run agree fuel
  obtain ⟨log, first⟩ := process_eq environment fuel compilation source file
  obtain ⟨note, second⟩ := process_eq other fuel twin source file
  rw [first, second]
  refine ⟨outcome, { state with scopes := ?_ }⟩
  show State.closeScopes _ _ = State.closeScopes _ _
  rw [state.scopes, state.blocks]

end Compilation

/-- What is reported has no influence on what is compiled: whatever stylesheets
are compiled one after another, with options that differ in reports and
rendering only, each of them succeeds or fails with the same error at the same
place.  The variables, mixins and dependencies are the same afterwards, and so
is the sequence of properties with their selectors. -/
theorem processAll_sameRules (environment other : Environment)
    (agree : environment.SameRules other) (calls : List Compilation.Call)
    (compilation twin : Compilation) (same : compilation.SameRules twin) :
    (compilation.processAll environment calls).1 =
      (twin.processAll other calls).1 ∧
      (compilation.processAll environment calls).2.SameRules
        (twin.processAll other calls).2 := by
  induction calls generalizing compilation twin with
  | nil => exact ⟨rfl, same⟩
  | cons call calls ih =>
      obtain ⟨outcome, next⟩ :=
        same.process agree call.fuel call.source call.file
      obtain ⟨outcomes, last⟩ := ih _ _ next
      refine ⟨?_, last⟩
      unfold Compilation.processAll
      exact congrArg₂ List.cons outcome outcomes

/-- Comments kept and calls reported, or nothing of both; the second call
fails. -/
theorem processAll_sameRules_noisy :
    let quiet : Environment :=
      { options := { functions := { unknown := { report := false } } } }
    let noisy : Environment :=
      { options := { debugComments := true, keepDebugStyle := true,
                     debugSelector := "#d".toList } }
    let calls : List Compilation.Call :=
      [⟨"@mixin m { x: f(1); } .a { w: 1; @include m; y: 2; }".toList,
        some "a".toList, 20⟩, ⟨".b { z: $z; }".toList, none, 20⟩]
    quiet.SameRules noisy ∧
      (({} : Compilation).processAll quiet calls).1 =
        (({} : Compilation).processAll noisy calls).1 ∧
      (({} : Compilation).processAll quiet calls).2.SameRules
        (({} : Compilation).processAll noisy calls).2 := by
  intro quiet noisy calls
  have agree : quiet.SameRules noisy := ⟨⟨rfl, rfl, rfl⟩, rfl⟩
  exact ⟨agree,
    processAll_sameRules quiet noisy agree calls {} {} ⟨rfl, rfl, rfl, rfl⟩⟩

end Stylesheet
