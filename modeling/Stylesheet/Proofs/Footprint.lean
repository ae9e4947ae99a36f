import Stylesheet.Proofs.Effect

/-!
# What work leaves alone

Most of a statement's work touches neither the blocks nor the mixins, and looks
variables up without defining any (`Quiet`).  Resolving a value does not even
move the cursor or write output (`Resolved`).

What holds over a whole statement is built up from its parts for any relation
between states: first from lookups (`AllowsLookups`), then from the work at the
cursor (`AllowsReading`), and last from the few parts that open and close blocks
and define something (`AllowsStatements`).
-/

namespace Stylesheet

namespace Scopes

/-- Every earlier binding is still in its place; its uses may have been
counted. -/
def Retains (before after : Scopes) : Prop :=
  ∀ (place : Nat) (binding : Binding), before.bindings[place]? = some binding →
    ∃ uses, after.bindings[place]? = some { binding with uses }

instance : IsPreorder Scopes Retains where
  refl scopes := by
    intro place binding found
    exact ⟨binding.uses, found⟩
  trans first second third := by
    intro before after place binding found
    obtain ⟨uses, middle⟩ := before place binding found
    obtain ⟨later, last⟩ := after place _ middle
    exact ⟨later, last⟩

theorem retains_of_bindings {before after : Scopes}
    (same : after.bindings = before.bindings) :
    before.Retains after := by
  intro place binding found
  exact ⟨binding.uses, by rw [same, found]⟩

theorem retains_bind (scopes : Scopes) (added : Binding) :
    scopes.Retains (scopes.bind added) := by
  intro place binding found
  have bounded : place < scopes.bindings.size :=
    (Array.getElem?_eq_some_iff.mp found).1
  refine ⟨binding.uses, ?_⟩
  simp only [bind, Array.getElem?_push]
  rw [if_neg (Nat.ne_of_lt bounded), found]

theorem retains_define (scopes : Scopes) (name value : Text)
    (isDefault : Bool) :
    scopes.Retains (scopes.define name value isDefault).2 := by
  unfold define
  split
  · exact Std.Refl.refl scopes
  · exact scopes.retains_bind _

theorem outer_define (scopes : Scopes) (name value : Text) (isDefault : Bool) :
    (scopes.define name value isDefault).2.outer = scopes.outer := by
  unfold define
  split
  · rfl
  · rfl

theorem contains_iff (scopes : Scopes) (name : Text) :
    scopes.contains name = true ↔ ∃ frame ∈ scopes.frames,
      (frame.lookup name).isSome := by
  rw [contains, place?, List.findSome?_isSome_iff]

/-- Variables were looked up, and nothing else happened. -/
structure Consulted (before after : Scopes) : Prop where
  inner : after.inner = before.inner
  outer : after.outer = before.outer
  retains : before.Retains after

instance : IsPreorder Scopes Consulted where
  refl scopes := ⟨rfl, rfl, Std.Refl.refl scopes⟩
  trans _ _ _ before after :=
    ⟨after.inner.trans before.inner, after.outer.trans before.outer,
      trans_of Retains before.retains after.retains⟩

theorem Consulted.place? {before after : Scopes}
    (consulted : Consulted before after) (name : Text) :
    after.place? name = before.place? name := by
  rw [Scopes.place?, Scopes.place?, frames, frames, consulted.inner,
    consulted.outer]

/-- A variable that is visible keeps its value and its flag. -/
theorem Consulted.get? {before after : Scopes}
    (consulted : Consulted before after) {name : Text} {binding : Binding}
    (found : before.get? name = some binding) :
    ∃ uses, after.get? name = some { binding with uses } := by
  have same := consulted.place? name
  simp only [Scopes.get?, Option.bind_eq_bind, Option.bind_eq_some_iff] at found
  obtain ⟨place, looked, present⟩ := found
  obtain ⟨uses, kept⟩ := consulted.retains place binding present
  exact ⟨uses, by simp [Scopes.get?, same, looked, kept]⟩

theorem consulted_read (name : Text) : Always Consulted (read name) := by
  intro scopes
  unfold read
  split
  · exact Std.Refl.refl scopes
  · rename_i place found
    refine ⟨rfl, rfl, ?_⟩
    intro other binding present
    simp only [finalState, Array.getElem?_modify, present]
    by_cases same : place = other
    · exact ⟨binding.uses + 1, by simp [same]⟩
    · exact ⟨binding.uses, by simp [same]⟩

/-- Binding parameters only adds to the innermost scope. -/
theorem bindAll_spec (pairs : List (Text × Text)) (scopes : Scopes) :
    (pairs.foldl
      (fun scopes (parameter, value) => (scopes.define parameter value false).2)
        scopes).outer = scopes.outer ∧
      scopes.Retains (pairs.foldl
        (fun scopes (parameter, value) =>
          (scopes.define parameter value false).2) scopes) := by
  induction pairs generalizing scopes with
  | nil => exact ⟨rfl, Std.Refl.refl scopes⟩
  | cons pair pairs ih =>
      obtain ⟨parameter, value⟩ := pair
      obtain ⟨outer, retains⟩ := ih (scopes.define parameter value false).2
      exact ⟨outer.trans (outer_define ..),
        trans_of Retains (scopes.retains_define parameter value false) retains⟩

end Scopes

namespace Mixin

variable (mixin : Mixin) (file : Option Text)

theorem name_recordUse : (mixin.recordUse file).name = mixin.name := by
  unfold recordUse
  split
  · rfl
  · rfl

theorem parameters_recordUse :
    (mixin.recordUse file).parameters = mixin.parameters := by
  unfold recordUse
  split
  · rfl
  · rfl

theorem body_recordUse : (mixin.recordUse file).body = mixin.body := by
  unfold recordUse
  split
  · rfl
  · rfl

end Mixin

namespace Mixins

theorem mem_of_get? {mixins : Mixins} {name : Text} {mixin : Mixin}
    (found : mixins.get? name = some mixin) : mixin ∈ mixins.toList := by
  obtain ⟨place, -, present⟩ := Option.bind_eq_some_iff.mp found
  exact List.mem_of_getElem? present

theorem place?_replace (mixins : Mixins) (mixin : Mixin) (name : Text) :
    (mixins.replace mixin).place? name = mixins.place? name := by
  unfold replace
  split
  · rfl
  · rfl

theorem get?_replace {mixins : Mixins} {mixin previous : Mixin}
    (present : mixins.get? mixin.name = some previous) :
    (mixins.replace mixin).get? mixin.name = some mixin := by
  obtain ⟨place, known, listed⟩ := Option.bind_eq_some_iff.mp present
  have inside : place < mixins.toList.length :=
    (List.getElem?_eq_some_iff.mp listed).1
  rw [get?, place?_replace, known, replace, known]
  exact List.getElem?_set_self inside

/-- What including a mixin gives, and the mixins and scopes afterwards. -/
def expanded (mixins : Mixins) (name : Text) (arguments : List Text)
    (file : Option Text) (scopes : Scopes) :
    Except Error (Expansion × Mixins × Scopes) :=
  match mixins.get? name with
  | none => .error (.undefinedMixin name)
  | some mixin =>
      if arguments.length != mixin.parameters.length then
        .error (.argumentCount name mixin.parameters.length arguments.length)
      else
        let bound := (mixin.parameters.zip arguments).foldl
          (fun scopes (parameter, value) =>
            (scopes.define parameter value false).2) scopes
        .ok
          ({ text := mixin.body ++ ['}'], file := mixin.file,
             line := mixin.line },
          mixins.replace (mixin.recordUse file), bound)

/-- An inclusion that fails leaves the mixins and the scopes as they are. -/
theorem expand_apply (mixins : Mixins) (name : Text) (arguments : List Text)
    (file : Option Text) (scopes : Scopes) :
    expand name arguments file (mixins, scopes) =
      match mixins.expanded name arguments file scopes with
      | .ok result => .ok result.1 result.2
      | .error error => .error error (mixins, scopes) := by
  have looked : expand name arguments file (mixins, scopes) =
      (match mixins.get? name with
      | none => throw (.undefinedMixin name)
      | some mixin => do
          if arguments.length != mixin.parameters.length then
            throw (.argumentCount name mixin.parameters.length arguments.length)
          modify fun both =>
            (both.1.replace (mixin.recordUse file), both.2)
          modify fun both =>
            (both.1, (mixin.parameters.zip arguments).foldl
              (fun scopes (parameter, value) =>
                (scopes.define parameter value false).2) both.2)
          return { text := mixin.body ++ ['}'], file := mixin.file
                   line := mixin.line } :
        EStateM Error (Mixins × Scopes) Expansion) (mixins, scopes) :=
    rfl
  rw [looked, expanded]
  cases mixins.get? name with
  | none => rfl
  | some mixin =>
      dsimp only
      split
      · rfl
      · rfl

/-- What including a mixin gives. -/
theorem expanded_ok {mixins after : Mixins} {name : Text}
    {arguments : List Text} {file : Option Text} {scopes bound : Scopes}
    {expansion : Expansion}
    (done : mixins.expanded name arguments file scopes =
      .ok (expansion, after, bound)) :
    ∃ mixin, mixins.get? name = some mixin ∧
      expansion.text = mixin.body ++ ['}'] ∧
        after = mixins.replace (mixin.recordUse file) ∧
      bound = (mixin.parameters.zip arguments).foldl
        (fun scopes (parameter, value) =>
          (scopes.define parameter value false).2) scopes := by
  unfold expanded at done
  split at done
  · simp at done
  · rename_i mixin found
    split at done
    · simp at done
    · simp only [Except.ok.injEq, Prod.mk.injEq] at done
      obtain ⟨rfl, rfl, rfl⟩ := done
      exact ⟨mixin, found, rfl, rfl, rfl⟩

theorem expanded_scopes {mixins after : Mixins} {name : Text}
    {arguments : List Text} {file : Option Text} {scopes bound : Scopes}
    {expansion : Expansion}
    (done : mixins.expanded name arguments file scopes =
      .ok (expansion, after, bound)) :
    bound.outer = scopes.outer ∧ scopes.Retains bound := by
  obtain ⟨mixin, -, -, -, rfl⟩ := expanded_ok done
  exact Scopes.bindAll_spec ..

/-- The bodies of all mixins have a property. -/
def Bodies (property : Text → Prop) (mixins : Mixins) : Prop :=
  ∀ mixin ∈ mixins.toList, property mixin.body

namespace Bodies

variable {property : Text → Prop} {mixins : Mixins} {mixin : Mixin}

theorem replace (bodies : mixins.Bodies property)
    (holds : property mixin.body) :
    (mixins.replace mixin).Bodies property := by
  unfold Mixins.replace
  split
  · intro other member
    rcases List.mem_or_eq_of_mem_set member with present | rfl
    · exact bodies other present
    · exact holds
  · exact bodies

theorem define (bodies : mixins.Bodies property) (holds : property mixin.body) :
    (mixins.define mixin).Bodies property := by
  unfold Mixins.define
  split
  · exact bodies.replace holds
  · intro other member
    rcases List.mem_append.mp member with present | new
    · exact bodies other present
    · rw [List.mem_singleton.mp new]
      exact holds

theorem expanded {after : Mixins} {name : Text} {arguments : List Text}
    {file : Option Text} {scopes bound : Scopes} {expansion : Expansion}
    (bodies : mixins.Bodies property)
    (done : mixins.expanded name arguments file scopes =
      .ok (expansion, after, bound)) :
    after.Bodies property := by
  obtain ⟨mixin, found, -, rfl, -⟩ := expanded_ok done
  refine bodies.replace ?_
  rw [Mixin.body_recordUse]
  exact bodies mixin (mem_of_get? found)

end Bodies

end Mixins

namespace Variable

variable {relation : Scopes → Scopes → Prop} [IsPreorder Scopes relation]
  (reads : ∀ name, Always relation (Scopes.read name))
include reads

theorem always_replaceAfter (pending : Nat) (text : Text) :
    Always relation (replaceAfter pending text) := by
  fun_induction replaceAfter pending text with
  | case1 => exact .pure _
  | case2 pending c rest ih => exact ih
  | case3 c rest reference name ih =>
      exact (reads _).bind fun value => ih.bind fun following => .pure _
  | case4 c rest plain ih => exact ih.bind fun following => .pure _

theorem always_substituteWithin (whole : Text) (rounds : Nat) (text : Text) :
    Always relation (substituteWithin whole rounds text) := by
  induction rounds generalizing text with
  | zero =>
      unfold substituteWithin
      split
      · exact .throw _
      · exact .pure _
  | succ rounds ih =>
      unfold substituteWithin
      split
      · exact (always_replaceAfter reads 0 text).bind ih
      · exact .pure _

/-- Replacing references does nothing but to read variables. -/
theorem always_substitute (text : Text) : Always relation (substitute text) :=
  always_substituteWithin reads text maxRounds text

end Variable

/-- The state with other variables and another log. -/
def State.noting (state : State) (scopes : Scopes) (log : Log) : State :=
  { state with scopes, log }

namespace State

variable (state : State) (scopes after : Scopes) (log later : Log)

@[simp] theorem noting_self : state.noting state.scopes state.log = state :=
  rfl

@[simp] theorem noting_noting :
    (state.noting scopes log).noting after later = state.noting after later :=
  rfl

end State

/-- Whether an event is that of an import. -/
def Event.isImport : Event → Bool
  | .importing _ => true
  | _ => false

namespace Compile

/-- Variables may have been looked up and events recorded, and nothing else
happened. -/
structure Resolved (before after : State) : Prop where
  cursor : after.cursor = before.cursor
  blocks : after.blocks = before.blocks
  mixins : after.mixins = before.mixins
  sheet : after.sheet = before.sheet
  dependencies : after.dependencies = before.dependencies
  scopes : before.scopes.Consulted after.scopes

instance : IsPreorder State Resolved where
  refl state := ⟨rfl, rfl, rfl, rfl, rfl, Std.Refl.refl state.scopes⟩
  trans _ _ _ before after :=
    ⟨after.cursor.trans before.cursor, after.blocks.trans before.blocks,
      after.mixins.trans before.mixins, after.sheet.trans before.sheet,
      after.dependencies.trans before.dependencies,
      trans_of Scopes.Consulted before.scopes after.scopes⟩

/-- Blocks, mixins and scopes are as they were; variables may have been looked
up. -/
structure Quiet (before after : State) : Prop where
  blocks : after.blocks = before.blocks
  mixins : after.mixins = before.mixins
  scopes : before.scopes.Consulted after.scopes

instance : IsPreorder State Quiet where
  refl state := ⟨rfl, rfl, Std.Refl.refl state.scopes⟩
  trans _ _ _ before after :=
    ⟨after.blocks.trans before.blocks, after.mixins.trans before.mixins,
      trans_of Scopes.Consulted before.scopes after.scopes⟩

theorem Resolved.toQuiet {before after : State}
    (resolved : Resolved before after) :
    Quiet before after :=
  ⟨resolved.blocks, resolved.mixins, resolved.scopes⟩

theorem quiet_of_same {before after : State}
    (scopes : after.scopes = before.scopes)
    (mixins : after.mixins = before.mixins)
    (blocks : after.blocks = before.blocks) :
    Quiet before after :=
  ⟨blocks, mixins, by rw [scopes]; exact Std.Refl.refl _⟩

theorem quiet_of_resolved {α : Type} {action : Compile α}
    (resolved : Always Resolved action) :
    Always Quiet action :=
  resolved.mono Resolved.toQuiet

/-- Work on the scopes changes nothing else. -/
theorem always_resolving {α : Type} {relation : State → State → Prop}
    {action : EStateM Error Scopes α} (scope : ∀ state : State, relation state
      { state with scopes := finalState (action state.scopes) }) :
    Always relation (resolving action) := by
  intro state
  have after := scope state
  unfold resolving
  split
  · rename_i result
    rwa [result] at after
  · rename_i result
    rwa [result] at after

/-- A scope can be closed unless only the global one is open. -/
theorem resolving_pop (state : State) : resolving Scopes.pop state =
    match state.scopes.outer with
    | [] => .error .noBlockOpen state
    | frame :: outer => .ok () { state with
        scopes := { state.scopes with inner := frame, outer } } := by
  unfold resolving
  cases enclosing : state.scopes.outer with
  | nil => rw [Scopes.pop_global enclosing]
  | cons frame outer => rw [Scopes.pop_cons enclosing]

theorem closeBlock_cons {state : State} {block : Block} {rest : List Block}
    {frame : Frame} {frames : List Frame}
    (blocks : state.blocks = block :: rest)
    (outer : state.scopes.outer = frame :: frames) :
    closeBlock state = .ok () { state with
      blocks := rest
      scopes := { state.scopes with inner := frame, outer := frames }
      cursor := state.cursor.advance } := by
  simp [closeBlock, blocks, resolving_pop, outer, reading]

/-- The relation holds when a variable is looked up, and when an event is
recorded that is no import. -/
structure AllowsLookups (relation : State → State → Prop) : Prop where
  lookup : ∀ name state,
    relation state
      { state with scopes := finalState (Scopes.read name state.scopes) }
  log : ∀ state event, event.isImport = false →
    relation state { state with log := state.log.add event }

namespace AllowsLookups

/-- The scopes of states with nothing else between them. -/
def Beneath (relation : State → State → Prop) (before after : Scopes) : Prop :=
  ∀ state : State, state.scopes = before →
    relation state { state with scopes := after }

instance {relation : State → State → Prop} [IsPreorder State relation] :
    IsPreorder Scopes (Beneath relation) where
  refl scopes := by
    rintro state rfl
    exact Std.Refl.refl state
  trans first second third := by
    intro before after state same
    exact trans_of relation (before state same) (after _ rfl)

variable {relation : State → State → Prop} [IsPreorder State relation]
  (allows : AllowsLookups relation) (environment : Environment)
include allows

theorem substitute (text : Text) :
    Always relation (resolving (Variable.substitute text)) := by
  refine always_resolving fun state => ?_
  have looked : Beneath relation state.scopes
      (finalState (Variable.substitute text state.scopes)) := by
    refine Variable.always_substitute (fun name scopes => ?_) text state.scopes
    rintro state rfl
    exact allows.lookup name state
  exact looked state rfl

omit [IsPreorder State relation] in
theorem record {event : Event} (plain : event.isImport = false) :
    Always relation (record event) :=
  fun state => allows.log state event plain

omit [IsPreorder State relation] in
theorem warn (warning : Warning) : Always relation (warn warning) :=
  .getBind fun state => allows.record rfl state

theorem finishValue (text : Text) :
    Always relation (finishValue environment text) :=
  (allows.substitute text).bind fun _ => (Always.check _).bind fun _ =>
    (Always.forM fun _ => allows.warn _).bind fun _ => .pure _

theorem fill (template : Template) :
    Always relation (fill environment template) := by
  induction template with
  | done => exact .pure _
  | char c rest ih => exact ih.bind fun _ => .pure _
  | hole inner rest innerAllowed restAllowed =>
      exact innerAllowed.bind fun _ =>
        (allows.finishValue environment _).bind fun _ =>
        restAllowed.bind fun _ => .pure _
  | broken => exact .form _

theorem interpolate (text : Text) :
    Always relation (interpolate environment text) :=
  allows.fill environment _

theorem resolveValue (text : Text) :
    Always relation (resolveValue environment text) :=
  (allows.interpolate environment text).bind fun _ =>
    allows.finishValue environment _

theorem blockOf (head : Text) : Always relation (blockOf environment head) := by
  refine .getThen fun seen => ?_
  dsimp only
  split
  · split
    · exact .form _
    · exact (allows.interpolate environment _).bind fun _ => .pure _
  · exact (allows.interpolate environment _).bind fun _ =>
      (Always.check _).bind fun _ =>
      (Always.check _).bind fun _ => .pure _

theorem resolveArguments (list : Option Text) :
    Always relation (resolveArguments environment list) :=
  .mapM fun _ => allows.resolveValue environment _

end AllowsLookups

theorem always_evaluateCondition {relation : State → State → Prop}
    [IsPreorder State relation] (text : Text) :
    Always relation (evaluateCondition text) := by
  unfold evaluateCondition
  split
  · exact .pure _
  · exact .throw _

section Resolving

variable (environment : Environment)

theorem allowsLookups_resolved : AllowsLookups Resolved where
  lookup name state :=
    ⟨rfl, rfl, rfl, rfl, rfl, Scopes.consulted_read name state.scopes⟩
  log state _ _ := ⟨rfl, rfl, rfl, rfl, rfl, Std.Refl.refl state.scopes⟩

theorem resolved_record (event : Event) : Always Resolved (record event) :=
  fun state => ⟨rfl, rfl, rfl, rfl, rfl, Std.Refl.refl state.scopes⟩

theorem resolved_warn (warning : Warning) : Always Resolved (warn warning) :=
  allowsLookups_resolved.warn warning

theorem resolved_interpolate (text : Text) :
    Always Resolved (interpolate environment text) :=
  allowsLookups_resolved.interpolate environment text

theorem resolved_resolveValue (text : Text) :
    Always Resolved (resolveValue environment text) :=
  allowsLookups_resolved.resolveValue environment text

theorem resolved_blockOf (head : Text) :
    Always Resolved (blockOf environment head) :=
  allowsLookups_resolved.blockOf environment head

theorem resolved_resolveArguments (list : Option Text) :
    Always Resolved (resolveArguments environment list) :=
  allowsLookups_resolved.resolveArguments environment list

theorem resolved_evaluateCondition (text : Text) :
    Always Resolved (evaluateCondition text) :=
  always_evaluateCondition text

end Resolving

/-- The relation does not depend on the cursor and the output, either. -/
structure AllowsReading (relation : State → State → Prop) : Prop
    extends AllowsLookups relation where
  move : ∀ (state : State) cursor, relation state { state with cursor }
  print : ∀ (state : State) sheet, relation state { state with sheet }

namespace AllowsReading

variable {relation : State → State → Prop} (allows : AllowsReading relation)
  (environment : Environment)
include allows

theorem reading {α : Type} (reader : Reader α) :
    Always relation (reading reader) := by
  intro state
  unfold Compile.reading
  split
  · exact allows.move _ _
  · exact allows.move _ _

variable [IsPreorder State relation]

theorem comment (text : Text) : Always relation (comment environment text) := by
  intro state
  change relation state (if environment.options.debugComments then _ else state)
  split
  · exact allows.print _ _
  · exact Std.Refl.refl state

theorem splice (source : Source) : Always relation (splice source) :=
  .getBind fun state =>
    ((Always.check _).bind
      fun _ => (fun _ => allows.move _ _ : Always relation _)) state

theorem addProperty (block : Block) (name value : Text) :
    Always relation (addProperty block name value) := by
  refine .getBind fun state => Always.modifyAt (allows.print _ _) fun _ => ?_
  split
  · exact .forM fun _ => allows.warn _
  · exact .pure _

theorem declaration : Always relation (declaration environment) := by
  refine (allows.reading _).bind fun raw => .getThen fun seen => ?_
  split
  · exact .form _
  · split
    · exact .form _
    · refine (allows.interpolate environment _).bind fun name =>
        Always.onlyIf (.form _) ?_
      refine (allows.resolveValue environment _).bind fun value =>
        Always.onlyIf (.form _) ?_
      exact (allows.addProperty _ _ _).bind fun _ => allows.reading _

theorem mixinName : Always relation mixinName :=
  (allows.reading _).bind fun _ =>
    Always.onlyIf (.form _) ((allows.reading _).bind fun _ => .pure _)

theorem argumentList? : Always relation argumentList? := by
  refine .getThen fun seen => ?_
  split
  · exact (allows.reading _).bind fun _ => (allows.reading _).bind
      fun _ => .pure _
  · exact .pure _

theorem endInclude (name : Text) : Always relation (endInclude name) := by
  refine .getThen fun seen => ?_
  split
  · exact allows.reading _
  · exact .pure _
  · exact .pure _
  · exact .form _

/-- Imports are allowed if the log and the dependencies do not matter. -/
theorem importFile
    (log : ∀ (state : State) log, relation state { state with log })
    (depend : ∀ (state : State) dependencies,
      relation state { state with dependencies })
    (path : Text) : Always relation (importFile environment path) := by
  have recorded (event : Event) : Always relation (Compile.record event) :=
    fun state =>
    log state _
  refine (recorded _).bind fun _ => (allows.comment environment _).bind fun _ =>
    (Always.forM fun _ => recorded _).bind fun _ => ?_
  split
  · exact .throw _
  · split
    · exact allows.splice _
    · refine Always.bind (fun state => ?_) fun _ => allows.splice _
      change relation state (if _ then state else _)
      split
      · exact Std.Refl.refl state
      · exact depend state _

theorem importDirective
    (importing : ∀ path,
      Always relation (Compile.importFile environment path)) :
    Always relation (importDirective environment) :=
  (allows.reading _).bind fun _ => (allows.reading _).bind fun _ =>
    (allows.interpolate environment _).bind fun _ =>
      (Always.check _).bind fun _ =>
      .forM fun _ => importing _

theorem branchBody : Always relation branchBody :=
  .getThen fun _ => (allows.reading _).bind fun _ => .pure _

theorem branch (asked : Bool) : Always relation (branch environment asked) := by
  refine (allows.reading _).bind fun condition => .getThen fun seen =>
    Always.onlyIf (.form _) ?_
  dsimp only
  split
  · exact (allows.resolveValue environment _).bind fun text =>
      (always_evaluateCondition text).bind fun _ => allows.branchBody.bind
        fun _ => .pure _
  · exact (Always.pure _).bind fun _ => allows.branchBody.bind fun _ => .pure _

theorem elseBranches (fuel : Nat) (chosen : Option Source) :
    Always relation (elseBranches environment fuel chosen) := by
  induction fuel generalizing chosen with
  | zero => exact .pure _
  | succ fuel ih =>
      refine (allows.reading _).bind fun _ => (allows.reading _).bind
        fun another => ?_
      split
      · refine (allows.reading _).bind fun _ => (allows.reading _).bind
          fun conditional => ?_
        split
        · exact (allows.branch environment _).bind fun _ => ih _
        · exact allows.branchBody.bind fun _ => .pure _
      · exact .pure _

theorem conditionDirective :
    Always relation (conditionDirective environment) := by
  refine (allows.branch environment true).bind fun first => .getThen fun seen =>
    (allows.elseBranches environment _ first).bind fun chosen => ?_
  split
  · exact .pure _
  · split
    · exact .pure _
    · exact allows.splice _

end AllowsReading

section Quiet

variable (environment : Environment)

theorem allowsReading_quiet : AllowsReading Quiet where
  lookup name state := (allowsLookups_resolved.lookup name state).toQuiet
  log _ _ _ := quiet_of_same rfl rfl rfl
  move _ _ := quiet_of_same rfl rfl rfl
  print _ _ := quiet_of_same rfl rfl rfl

theorem quiet_reading {α : Type} (reader : Reader α) :
    Always Quiet (reading reader) :=
  allowsReading_quiet.reading reader

theorem quiet_comment (text : Text) : Always Quiet (comment environment text) :=
  allowsReading_quiet.comment environment text

theorem quiet_splice (source : Source) : Always Quiet (splice source) :=
  allowsReading_quiet.splice source

theorem quiet_declaration : Always Quiet (declaration environment) :=
  allowsReading_quiet.declaration environment

theorem quiet_mixinName : Always Quiet mixinName :=
  allowsReading_quiet.mixinName

theorem quiet_argumentList? : Always Quiet argumentList? :=
  allowsReading_quiet.argumentList?

theorem quiet_endInclude (name : Text) : Always Quiet (endInclude name) :=
  allowsReading_quiet.endInclude name

theorem quiet_importDirective : Always Quiet (importDirective environment) :=
  allowsReading_quiet.importDirective environment
    (allowsReading_quiet.importFile environment
    (fun _ _ => quiet_of_same rfl rfl rfl) fun _ _ => quiet_of_same rfl rfl rfl)

theorem quiet_conditionDirective :
    Always Quiet (conditionDirective environment) :=
  allowsReading_quiet.conditionDirective environment

end Quiet

/-- A definition of a mixin from its body on. -/
def mixinBody (name : Text) (parameters : List Text) : Compile Unit := do
  let cursor := (← get).cursor
  let body ← reading (Reader.readGroup '{' '}')
  let duplicate := (← get).mixins.contains name
  let mixin :=
    { name, parameters, body, file := cursor.file, line := cursor.line : Mixin }
  modify fun state => { state with mixins := state.mixins.define mixin }
  record (.mixinDefined name)
  if duplicate then warn (.duplicateMixin name)

theorem mixinDirective_eq : mixinDirective = (do
    let name ← mixinName
    if (← get).cursor.isAt '(' then
      let list ← reading (Reader.readGroup '(' ')')
      let parameters ← check (parameterNames name list)
      reading Reader.skipSpace
      mixinBody name parameters
    else mixinBody name []) :=
  rfl

/-- An inclusion after its block was opened. -/
def expansion (environment : Environment) (name : Text) (list : Option Text) :
    Compile Unit := do
  let arguments ← resolveArguments environment list
  record (.including name)
  comment environment
    ("include mixin: ".toList ++ name ++ " args: ".toList ++
      [','].intercalate arguments)
  let state ← get
  let (expansion, mixins, scopes) ←
    check (state.mixins.expanded name arguments state.cursor.file state.scopes)
  modify fun state => { state with mixins, scopes }
  record (.included name)
  splice
    { text := expansion.text, file := expansion.file, line := expansion.line }

private theorem expanding_expand {α : Type} (name : Text)
    (arguments : List Text) (next : Expansion → Compile α) :
    (do
      let state ← get
      let expansion ← expanding (Mixins.expand name arguments state.cursor.file)
      next expansion) =
    (do
      let state ← get
      let (expansion, mixins, scopes) ←
        check
          (state.mixins.expanded name arguments state.cursor.file state.scopes)
      modify fun state => { state with mixins, scopes }
      next expansion) := by
  funext state
  change
    (expanding (Mixins.expand name arguments state.cursor.file) >>= next)
      state =
    (check
      (state.mixins.expanded name arguments state.cursor.file state.scopes) >>=
      fun (expansion, mixins, scopes) => do
        modify fun state => { state with mixins, scopes }
        next expansion) state
  have included := Mixins.expand_apply state.mixins name arguments
    state.cursor.file state.scopes
  simp only [bind, EStateM.bind, expanding, included]
  cases state.mixins.expanded name arguments state.cursor.file state.scopes with
  | ok result => rfl
  | error error => rfl

theorem includeDirective_eq (environment : Environment) :
    includeDirective environment = (do
      let name ← mixinName
      let list ← argumentList?
      endInclude name
      openBlock ((← get).blocks.headD {})
      expansion environment name list) := by
  unfold includeDirective
  simp only [expanding_expand]
  rfl

/-- Binds a variable to the value that the text of its definition stands for. -/
def defineVariable (environment : Environment) (name raw : Text) :
    Compile Unit := do
  let (raw, isDefault) := splitDefault raw.trim
  let value ← resolveValue environment raw
  let (taken, scopes) := (← get).scopes.define name value.unquote isDefault
  modify fun state => { state with scopes }
  if !taken then record (.variableKept name)
  reading (Reader.skipChar ';')

theorem variableStatement_eq (environment : Environment) :
    variableStatement environment = (do
    reading (modify Cursor.advance)
    let name ← reading Reader.readName
    if name.isEmpty then form .variableNameExpected
    reading Reader.skipSpace
    reading (Cursor.expect ':')
    defineVariable environment name
      (← reading (Reader.readUntil [';', '}']))) :=
  rfl

/-- Adds the property that the text of a declaration stands for. -/
def declare (environment : Environment) (raw : Text) : Compile Unit := do
  match (← get).blocks with
  | [] => form (.propertyOutside raw.trim)
  | block :: _ =>
      match splitDeclaration? raw with
      | none => form (.colonExpected raw.trim)
      | some (name, value) =>
          let name := (← interpolate environment name.trim).trim
          if name.isEmpty then form .propertyNameExpected
          let value ← resolveValue environment value
          if value.isEmpty then form (.valueExpected name)
          addProperty block name value
          reading (Reader.skipChar ';')

theorem declaration_eq (environment : Environment) :
    declaration environment = (do
    declare environment (← reading (Reader.readUntil [';', '}']))) :=
  rfl

/-- Splices a chosen body in, unless it is blank. -/
def spliceChosen : Option Source → Compile Unit
  | none => pure ()
  | some body => if body.text.trim.isEmpty then pure () else splice body

theorem conditionDirective_eq (environment : Environment) :
    conditionDirective environment = (do
    let first ← branch environment true
    let chosen ← elseBranches environment
        ((← get).cursor.pending.length + 1) first
    spliceChosen chosen) :=
  rfl

namespace AllowsReading

variable {relation : State → State → Prop} [IsPreorder State relation]
  (allows : AllowsReading relation) (environment : Environment)
include allows

/-- Blocks can be closed if neither they nor the scopes matter. -/
theorem closeBlock
    (scope : ∀ (state : State) scopes, relation state { state with scopes })
    (block : ∀ (state : State) blocks, relation state { state with blocks }) :
    Always relation closeBlock := by
  refine .getThen fun seen => ?_
  split
  · exact .throw _
  · have popped : Always relation (resolving Scopes.pop) :=
      always_resolving fun state => scope state _
    exact Always.bind (fun state => block state _) fun _ =>
      popped.bind fun _ => allows.reading _

/-- Variables can be defined if the scopes do not matter. -/
theorem variableStatement
    (scope : ∀ (state : State) scopes, relation state { state with scopes }) :
    Always relation (variableStatement environment) := by
  refine (allows.reading _).bind fun _ => (allows.reading _).bind fun name =>
    Always.onlyIf (.form _) ?_
  refine (allows.reading _).bind fun _ => (allows.reading _).bind fun _ =>
    (allows.reading _).bind fun raw =>
      (allows.resolveValue environment _).bind fun value =>
      .getThen fun defining =>
        Always.bind (fun state => scope state _) fun _ => ?_
  exact Always.onlyIf (allows.record rfl) (allows.reading _)

/-- Mixins can be registered if they do not matter. -/
theorem mixinBody
    (register : ∀ (state : State) mixins, relation state { state with mixins })
    (name : Text) (parameters : List Text) :
    Always relation (mixinBody name parameters) := by
  refine .getThen fun place => (allows.reading _).bind fun body =>
    .getThen fun defining =>
    Always.bind (fun state => register state _) fun _ =>
      (allows.record rfl).bind fun _ => ?_
  split
  · exact allows.warn _
  · exact .pure _

end AllowsReading

/-- The relation holds over the parts of statements that open and close blocks,
define variables, register and expand mixins, and import files. -/
structure AllowsStatements (environment : Environment)
    (relation : State → State → Prop) : Prop
    extends AllowsReading relation where
  opening : ∀ block, Always relation (openBlock block)
  closing : Always relation closeBlock
  defining : Always relation (variableStatement environment)
  registering : ∀ name parameters, Always relation (mixinBody name parameters)
  including : ∀ name list, Always relation (expansion environment name list)
  importing : ∀ path, Always relation (importFile environment path)

namespace AllowsStatements

variable {environment : Environment} {relation : State → State → Prop}
  [IsPreorder State relation] (allows : AllowsStatements environment relation)
include allows

theorem statement : Always relation (statement environment) := by
  refine .getThen fun seen => ?_
  split
  · exact (allows.reading _).bind fun _ =>
      (allows.blockOf environment _).bind fun block =>
      (allows.reading _).bind fun _ => allows.opening block
  · exact allows.declaration environment
  · exact allows.declaration environment
  · exact allows.declaration environment

theorem mixinDirective : Always relation mixinDirective := by
  rw [mixinDirective_eq]
  refine allows.mixinName.bind fun name => .getThen fun seen => ?_
  split
  · exact (allows.reading _).bind fun _ => (Always.check _).bind fun _ =>
      (allows.reading _).bind fun _ => allows.registering name _
  · exact allows.registering name _

theorem includeDirective : Always relation (includeDirective environment) := by
  rw [includeDirective_eq]
  exact allows.mixinName.bind fun name => allows.argumentList?.bind fun list =>
    (allows.endInclude name).bind fun _ => .getThen fun seen =>
      (allows.opening _).bind fun _ => allows.including name list

theorem directive : Always relation (directive environment) := by
  refine (allows.reading _).bind fun _ => (allows.reading _).bind fun name =>
    (allows.reading _).bind fun _ => .getThen fun seen => ?_
  dsimp only
  split
  · split
    · exact .form _
    · exact allows.mixinDirective
  · split
    · split
      · exact allows.includeDirective
      · exact .form _
    · split
      · exact allows.importDirective environment allows.importing
      · split
        · exact allows.conditionDirective environment
        · exact .throw _

/-- The relation holds over every statement, successful or not. -/
theorem step : Always relation (step environment) := by
  refine (allows.reading _).bind fun _ => .getThen fun seen => ?_
  split
  · refine .getThen fun seen => ?_
    split
    · exact .pure _
    · exact .form _
  · exact allows.closing.bind fun _ => .pure _
  · exact (allows.reading _).bind fun _ => .pure _
  · exact allows.defining.bind fun _ => .pure _
  · exact allows.directive.bind fun _ => .pure _
  · exact allows.statement.bind fun _ => .pure _

end AllowsStatements

private theorem forM_logs {α : Type} {action : α → Compile PUnit}
    (logs : ∀ item state, ∃ log, action item state = .ok ⟨⟩ { state with log })
    (items : List α) (state : State) :
    ∃ log, items.forM action state = .ok ⟨⟩ { state with log } := by
  induction items generalizing state with
  | nil => exact ⟨state.log, rfl⟩
  | cons item items ih =>
      obtain ⟨first, acted⟩ := logs item state
      obtain ⟨log, same⟩ := ih { state with log := first }
      refine ⟨log, ?_⟩
      rw [List.forM, bind_apply, acted]
      exact same

theorem forM_warn {α : Type} (warning : α → Warning) (items : List α)
    (state : State) :
    ∃ log, (items.forM fun item => warn (warning item)) state =
      .ok ⟨⟩ { state with log } :=
  forM_logs (fun _ _ => ⟨_, rfl⟩) items state

theorem addProperty_ok (block : Block) (name value : Text) (state : State) :
    ∃ log, addProperty block name value state = .ok ⟨⟩ { state with
      sheet :=
        state.sheet.addProperty block.selectors
          { name := block.stem ++ name, value }
      log } := by
  unfold addProperty
  simp only [bind_apply, get_apply, modify_apply]
  split
  · exact forM_warn _ _ _
  · exact ⟨state.log, rfl⟩

private theorem forM_record {α : Type} (event : α → Event) (items : List α)
    (state : State) :
    (items.forM fun item => record (event item)) state =
      .ok ⟨⟩
        { state with log := items.foldl (fun log item => log.add (event item))
                       state.log } := by
  induction items generalizing state with
  | nil => rfl
  | cons item items ih =>
      rw [List.forM, bind_apply]
      exact ih _

/-- The state when an import has been noted, with the candidates that cannot be
read. -/
def noteImport (environment : Environment) (path : Text)
    (state : State) : State :=
  { state with
    sheet :=
      if environment.options.debugComments then
        state.sheet.addComment ("import: ".toList ++ path)
      else state.sheet
    log := (environment.loader.fetch path).unreadable.foldl
      (fun log candidate =>
        log.add (.candidateUnreadable candidate.1 candidate.2))
      (state.log.add (.importing path)) }

/-- An import is noted, and then it fails, or a text is spliced in and its file
becomes a dependency. -/
theorem importFile_apply (environment : Environment) (path : Text)
    (state : State) :
    importFile environment path state =
      match (environment.loader.fetch path).content with
      | none =>
          .error (.importNotFound path) (noteImport environment path state)
      | some content =>
          splice { text := Comment.strip content, file := some path, line := 1 }
            { noteImport environment path state with
              dependencies :=
                match environment.loader.locate path with
                | none => state.dependencies
                | some file =>
                    if state.dependencies.any (Path.same file) then
                      state.dependencies
                    else state.dependencies ++ [file] } := by
  have commented : comment environment ("import: ".toList ++ path)
      { state with log := state.log.add (.importing path) } =
        .ok ⟨⟩ { state with
          sheet := (noteImport environment path state).sheet
          log := state.log.add (.importing path) } := by
    simp only [comment, modify_apply, noteImport]
    split
    · rfl
    · rfl
  have noted := forM_record (fun candidate : Text × ReadFault =>
      .candidateUnreadable candidate.1 candidate.2)
        (environment.loader.fetch path).unreadable
    { state with
      sheet := (noteImport environment path state).sheet
      log := state.log.add (.importing path) }
  simp only [importFile, bind_apply, record, modify_apply] at noted ⊢
  rw [commented]
  dsimp only
  rw [noted]
  dsimp only
  cases (environment.loader.fetch path).content with
  | none => rfl
  | some content =>
      cases environment.loader.locate path with
      | none => rfl
      | some file =>
          simp only [bind_apply, modify_apply]
          split
          · rfl
          · rfl

end Compile

end Stylesheet
