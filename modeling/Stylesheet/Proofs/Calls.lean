import Stylesheet.Proofs.BlockScopes
import Stylesheet.Proofs.Layout

/-!
# Inclusions are calls

Including a mixin splices its body in front of what follows.  If the bodies of
all mixins are complete, this is the same as reading the body on its own, in a
block and a scope of its own where the parameters are bound, and going on behind
the inclusion: the body neither reads on into what follows nor closes a block
that it did not open.
-/

namespace Stylesheet

/-- The body of a mixin, up to the brace that closes its block. -/
def Layout.callee : Layout where
  holds depth text :=
    complete .between (List.replicate (depth + 1) .block) text = true
  final := ['}']
  directive := by decide
  space holds := by
    obtain ⟨gap, rest, split, spaces, stops, later⟩ := complete_space holds
    exact ⟨gap, rest, split, spaces, stops,
      List.ne_nil_of_mem (closing_mem_of_complete later),
      later⟩
  statement visible holds := by
    obtain ⟨lead, front, stop, behind, found, split, chunk, ending⟩ :=
      complete_statement visible holds
    refine .inr ⟨lead, front, stop, behind, found, split, chunk, ?_⟩
    cases ending with
    | semicolon free done => exact .semicolon free done
    | closing free done => exact .closing free done
    | block free done => exact .block free done
    | branch condition done =>
        exact .branch condition (closesBranch_of_complete done)
  closing {depth rest} holds := by
    cases depth with
    | zero =>
        have ended : complete .between [] rest = true := holds
        obtain ⟨-, rfl⟩ := complete_nil ended
        exact .inl ⟨rfl, rfl⟩
    | succ depth =>
        refine .inr ⟨depth, rfl, ?_⟩
        rwa [List.replicate_succ, complete, Standing.turn?_closing] at holds
  body {depth _ _} done following :=
    @complete_append .between [.block] (List.replicate (depth + 1) .block) _ _
      done following

/-- Parentheses with white space behind them. -/
structure Parentheses where
  contents : Text
  trail : Text
  grouped : ∀ following,
    spanGroup '(' ')' 0 .outside (contents ++ ')' :: following) =
    some contents
  blank : ∀ c ∈ trail, isSpace c = true

/-- The text of an argument list, if there is one. -/
def listText : Option Parentheses → Text
  | none => []
  | some list => '(' :: (list.contents ++ ')' :: list.trail)

/-- `@include name(list);` -/
structure Inclusion where
  gap : Text
  name : Text
  space : Text
  list : Option Parentheses
  apart : gap ≠ []
  gapBlank : ∀ c ∈ gap, isSpace c = true
  named : name ≠ []
  nameChars : ∀ c ∈ name, isNameChar c = true
  spaceBlank : ∀ c ∈ space, isSpace c = true

namespace Inclusion

def text (inclusion : Inclusion) : Text :=
  "@include".toList ++ (inclusion.gap ++
    (inclusion.name ++ (inclusion.space ++ (listText inclusion.list ++ [';']))))

def contents (inclusion : Inclusion) : Option Text :=
  inclusion.list.map Parentheses.contents

private theorem apart_of_gap (inclusion : Inclusion) (following : Text) :
    ∀ c, (inclusion.gap ++ following).head? = some c →
      isNameChar c = false := by
  obtain ⟨c, gap, same⟩ := List.exists_cons_of_ne_nil inclusion.apart
  have blank := inclusion.gapBlank c (by simp [same])
  intro d first
  obtain rfl : c = d := by simpa [same] using first
  exact not_name_of_isSpace blank

private theorem visible_name (inclusion : Inclusion) (following : Text) :
    ∀ c, (inclusion.name ++ following).head? = some c → isSpace c = false := by
  obtain ⟨c, name, same⟩ := List.exists_cons_of_ne_nil inclusion.named
  have named := inclusion.nameChars c (by simp [same])
  intro d first
  obtain rfl : c = d := by simpa [same] using first
  cases space : isSpace c with
  | false => rfl
  | true => rw [not_name_of_isSpace space] at named; simp at named

end Inclusion

/-- The resolved arguments of an inclusion, with the uses of variables that this
takes. -/
def argumentsOf (environment : Environment) (list : Option Text) :
    EStateM Error Scopes (List Text) :=
  consult (Compile.resolveArguments environment list)

/-- Binds the parameters of a mixin in the innermost scope. -/
def Mixin.bindArguments (mixin : Mixin) (arguments : List Text)
    (scopes : Scopes) : Scopes :=
  (mixin.parameters.zip arguments).foldl
    (fun scopes (parameter, value) => (scopes.define parameter value false).2)
      scopes

/-- The output with the note that an inclusion leaves in it. -/
def Sheet.noteInclusion (sheet : Sheet)
    (environment : Environment) (name : Text) (arguments : List Text) : Sheet :=
  if environment.options.debugComments then
    sheet.addComment
      ("include mixin: ".toList ++ name ++ " args: ".toList ++
        [','].intercalate arguments)
  else sheet

/-- The state in a new block with the selectors of the current one. -/
def State.nested (state : State) : State :=
  { state with
    scopes := state.scopes.push
    blocks := state.blocks.headD {} :: state.blocks }

/-- Reading the body of a mixin on its own: in a block with the selectors of the
current one, with nothing behind the brace that closes it. -/
def State.call (state : State) (environment : Environment) (name : Text)
    (mixin : Mixin) (arguments : List Text) (scopes : Scopes) : State :=
  { state with
    scopes := mixin.bindArguments arguments scopes
    mixins := state.mixins.replace (mixin.recordUse none)
    sheet := state.sheet.noteInclusion environment name arguments
    blocks := state.blocks.headD {} :: state.blocks
    cursor := (Cursor.ofText (mixin.body ++ ['}']) none).advance }

namespace Compile

variable {environment : Environment} {state : State} {rest : Text}
  {inclusion : Inclusion}

private theorem mixinName_at {name space : Text}
    (here : state.At (name ++ (space ++ rest))) (named : name ≠ [])
    (nameChars : ∀ c ∈ name, isNameChar c = true)
    (blank : ∀ c ∈ space, isSpace c = true)
    (apart : ∀ c, (space ++ rest).head? = some c → isNameChar c = false)
    (stops : ∀ c, rest.head? = some c → isSpace c = false) :
    mixinName state = .ok name (state.pass (name.length + space.length)) := by
  have read := reading_readName here nameChars apart
  have skipped := reading_skipSpace here.pass blank stops
  have filled : name.isEmpty = false := by simpa using named
  simp only [mixinName, bind_apply, read, filled, Bool.false_eq_true, if_false,
    skipped, pure_apply, State.pass_pass]

private theorem argumentList?_at {list : Option Parentheses}
    (here : state.At (listText list ++ ';' :: rest)) :
    argumentList? state =
      .ok (list.map Parentheses.contents)
        (state.pass (listText list).length) := by
  cases list with
  | none =>
      have missing : state.cursor.isAt '(' = false :=
        here.not_isAt (by simp [listText])
      simp only [argumentList?, bind_apply, get_apply, missing,
        Bool.false_eq_true, if_false, pure_apply]
      rfl
  | some list =>
      have whole :
          state.At
            ('(' :: (list.contents ++ ')' :: (list.trail ++ ';' :: rest))) := by
        simpa [listText] using here
      have read := reading_readGroup whole (list.grouped _)
      have behind : (state.pass (1 + list.contents.length + 1)).At
          (list.trail ++ ';' :: rest) := by
        have passed := whole.passOne.pass.passOne
        simpa only [State.pass_pass] using passed
      have skipped := reading_skipSpace behind list.blank (by simp [isSpace])
      have length : (listText (some list)).length =
          1 + list.contents.length + 1 + list.trail.length := by
        simp only [listText, List.length_cons, List.length_append]
        omega
      simp only [argumentList?, bind_apply, get_apply, whole.isAt, if_true,
        read, skipped, pure_apply, State.pass_pass, Option.map_some, length]

private theorem endInclude_at {name : Text} (here : state.At (';' :: rest)) :
    endInclude name state = .ok ⟨⟩ (state.pass 1) := by
  simp [endInclude, here.current, reading_advance]

private theorem comment_note (environment : Environment) (name : Text)
    (arguments : List Text) (state : State) :
    comment environment
        ("include mixin: ".toList ++ name ++ " args: ".toList ++
          [','].intercalate arguments) state =
      .ok ⟨⟩
        { state with
          sheet := state.sheet.noteInclusion environment name arguments } := by
  unfold comment Sheet.noteInclusion
  rw [modify_apply]
  split
  · rfl
  · rfl

private theorem expand_fitting {mixins : Mixins} {name : Text} {mixin : Mixin}
    {arguments : List Text} (registered : mixins.get? name = some mixin)
    (fitting : arguments.length = mixin.parameters.length) (file : Option Text)
    (scopes : Scopes) :
    mixins.expanded name arguments file scopes =
      .ok
        ({ text := mixin.body ++ ['}'], file := mixin.file,
           line := mixin.line },
        mixins.replace (mixin.recordUse file),
          mixin.bindArguments arguments scopes) := by
  simp [Mixins.expanded, registered, fitting, Mixin.bindArguments]

/-- The work of an inclusion after its block was opened, up to the splice. -/
theorem expansion_at {name : Text} {list : Option Text} {mixin : Mixin}
    {arguments : List Text} {scopes : Scopes}
    (registered : state.mixins.get? name = some mixin)
    (resolved : argumentsOf environment list state.scopes =
      .ok arguments scopes)
    (fitting : arguments.length = mixin.parameters.length) :
    ∃ log, expansion environment name list state =
      splice
        { text := mixin.body ++ ['}'], file := mixin.file, line := mixin.line }
        { state with
          scopes := mixin.bindArguments arguments scopes
          mixins := state.mixins.replace (mixin.recordUse state.cursor.file)
          sheet := state.sheet.noteInclusion environment name arguments
          log } := by
  obtain ⟨log, found⟩ :=
    of_consult (steady_resolveArguments sharesScopes_scopes environment list)
    (resolved_resolveArguments environment list) resolved
  have expanded := expand_fitting registered fitting state.cursor.file scopes
  simp only [expansion, bind_apply, found, record, modify_apply,
    comment_note, get_apply, State.noting, expanded, check, pure_apply]
  exact ⟨_, rfl⟩

variable {mixin : Mixin} {arguments : List Text} {scopes : Scopes}

/-- What stands behind the word of an inclusion is read, and a block is
opened. -/
theorem includeDirective_reads
    (here : state.At
      (inclusion.name ++ (inclusion.space ++ (listText inclusion.list ++
      ';' :: rest)))) :
    includeDirective environment state =
      expansion environment inclusion.name inclusion.contents
        (state.pass (inclusion.name ++ (inclusion.space ++
          (listText inclusion.list ++ [';']))).length).nested := by
  have stops : ∀ c, (listText inclusion.list ++ ';' :: rest).head? = some c →
      isSpace c = false ∧ isNameChar c = false := by
    cases inclusion.list with
    | none => simp [listText, isSpace, isNameChar]
    | some list => simp [listText, isSpace, isNameChar]
  have apart : ∀ c,
      (inclusion.space ++ (listText inclusion.list ++ ';' :: rest)).head? =
        some c →
      isNameChar c = false := by
    intro c first
    cases space : inclusion.space with
    | nil => exact (stops c (by simpa [space] using first)).2
    | cons d tail =>
        obtain rfl : d = c := by simpa [space] using first
        exact not_name_of_isSpace (inclusion.spaceBlank d (by simp [space]))
  have read := mixinName_at here inclusion.named inclusion.nameChars
    inclusion.spaceBlank apart fun c first => (stops c first).1
  have listed := argumentList?_at here.pass.pass
  have ended := @endInclude_at _ _ inclusion.name here.pass.pass.pass
  simp only [State.pass_pass] at listed ended
  rw [includeDirective_eq]
  simp only [bind_apply, read, listed, ended, get_apply,
    openBlock, modify_apply]
  simp only [List.length_append, List.length_singleton, Nat.add_assoc]
  rfl

/-- The same but for positions, the log and the cursor. -/
structure Prepares (call prepared : State) : Prop where
  scopes : call.scopes = prepared.scopes
  sheet : call.sheet = prepared.sheet
  dependencies : call.dependencies = prepared.dependencies
  blocks : call.blocks = prepared.blocks
  mixins : call.mixins.Alike prepared.mixins

/-- The step at an inclusion, up to the splice. -/
theorem step_inclusion (here : state.At (inclusion.text ++ rest))
    (inside : state.blocks ≠ [])
    (registered : state.mixins.get? inclusion.name = some mixin)
    (resolved : argumentsOf environment inclusion.contents state.scopes.push =
      .ok arguments scopes)
    (fitting : arguments.length = mixin.parameters.length) :
    ∃ prepared,
      Prepares (state.call environment inclusion.name mixin arguments scopes)
        prepared ∧
      prepared.cursor = (state.pass inclusion.text.length).cursor ∧
      step environment state = (do
        splice { text := mixin.body ++ ['}'], file := mixin.file,
                 line := mixin.line }
        return true : Compile Bool) prepared := by
  have whole :
      state.At ("@include".toList ++ (inclusion.gap ++ (inclusion.name ++
      (inclusion.space ++ (listText inclusion.list ++ ';' :: rest))))) := by
    unfold Inclusion.text at here
    simpa only [List.append_assoc, List.singleton_append] using here
  have dispatched :=
    @directive_include _ _ environment _ whole inclusion.gapBlank
    (inclusion.apart_of_gap _) (inclusion.visible_name _) inside
  have passed := whole.pass.pass
  rw [State.pass_pass] at passed
  have length : inclusion.text.length =
      "@include".toList.length + inclusion.gap.length +
      (inclusion.name ++
        (inclusion.space ++ (listText inclusion.list ++ [';']))).length := by
    unfold Inclusion.text
    rw [List.length_append, List.length_append, Nat.add_assoc]
  obtain ⟨log, expanded⟩ :=
    @expansion_at environment (state.pass inclusion.text.length).nested
    _ _ _ _ _ registered resolved fitting
  have kept (file : Option Text) :
      (state.mixins.replace (mixin.recordUse none)).Alike
      (state.mixins.replace (mixin.recordUse file)) :=
    (Mixins.Alike.refl state.mixins).replace
      ((Mixin.Alike.mk rfl rfl rfl).recordUse none file)
  rw [step_directive whole, bind_apply, dispatched,
    includeDirective_reads passed, State.pass_pass, ← length]
  generalize inclusion.text.length = count at expanded ⊢
  rw [expanded]
  refine ⟨_, ?_, ?_, rfl⟩
  · exact ⟨rfl, rfl, rfl, rfl, kept _⟩
  · rfl

/-- On the right side, what stands behind the inclusion is below the body. -/
def callFork (cursor : Cursor) : Fork where
  left := []
  leftBelow := []
  right := []
  rightBelow := cursor.layers
  deeper := Nat.zero_le _

/-- An inclusion enters the call, if there are not too many sources already. -/
theorem step_enters (here : state.At (inclusion.text ++ rest))
    (inside : state.blocks ≠ []) (bodies : state.mixins.Bodies Complete)
    (registered : state.mixins.get? inclusion.name = some mixin)
    (resolved : argumentsOf environment inclusion.contents state.scopes.push =
      .ok arguments scopes)
    (fitting : arguments.length = mixin.parameters.length) :
    (Cursor.maxSources ≤
      (state.pass inclusion.text.length).cursor.below.length + 1 ∧
        ∃ final, step environment state = .error (.endless .expansion) final) ∨
      ∃ entered, step environment state = .ok true entered ∧
        Within (callFork (state.pass inclusion.text.length).cursor) .callee
          (state.blocks.headD {} :: state.blocks)
          (state.call environment inclusion.name mixin arguments scopes)
            entered := by
  obtain ⟨prepared, prepares, cursor, stepped⟩ :=
    step_inclusion here inside registered resolved fitting
  rw [stepped, ← cursor]
  by_cases full : Cursor.maxSources ≤ prepared.cursor.below.length + 1
  · refine .inl ⟨full, prepared, ?_⟩
    rw [bind_apply, splice_full full]
  · right
    have complete := bodies mixin (Mixins.mem_of_get? registered)
    obtain ⟨after, spliced, ready, layers⟩ := splice_room
      { text := mixin.body ++ ['}'], file := mixin.file, line := mixin.line }
      (show prepared.cursor.layers.length < Cursor.maxSources
        by simpa [Cursor.layers] using full)
    refine ⟨{ prepared with cursor := after }, ?_, [],
      mixin.body ++ ['}'], complete, ?_⟩
    · rw [bind_apply, spliced]
      rfl
    · have body := Cursor.layers_ofText (mixin.body ++ ['}']) none
      refine ⟨prepares.scopes, prepares.sheet, prepares.dependencies,
        prepares.mixins, ?_, prepares.blocks.symm, rfl, Cursor.ready_advance _,
        ready, [], mixin.body ++ ['}'], rfl, ?_, ?_⟩
      · exact bodies.replace (by rwa [Mixin.body_recordUse])
      · rw [List.append_assoc]
        exact body
      · change after.layers = _
        rw [layers]
        obtain ⟨top, below, same⟩ :=
          List.exists_cons_of_ne_nil prepared.cursor.layers_ne_nil
        rw [same, skip, if_pos (by simp), List.drop_zero, ← same]
        simp [callFork]

/-- In blocks above those of `state`, and in scopes above its own. -/
structure Above (state current : State) : Prop where
  frames : ∃ pushed : List Frame,
    current.scopes.outer = pushed ++ state.scopes.frames ∧
    current.blocks.length = pushed.length + (state.blocks.length + 1)
  retains : state.scopes.Retains current.scopes

variable {before after current : State}

theorem Above.closable (above : Above state current) : Closable current := by
  intro _ none
  obtain ⟨pushed, outer, -⟩ := above.frames
  simp [outer, Scopes.frames] at none

theorem Above.moves (above : Above state before) (moves : Moves before after)
    (deeper : state.blocks.length < after.blocks.length) :
    Above state after := by
  obtain ⟨pushed, outer, depth⟩ := above.frames
  cases moves with
  | stays stays =>
      exact ⟨⟨pushed, stays.outer.trans outer, by rw [stays.blocks, depth]⟩,
        trans_of Scopes.Retains above.retains stays.retains⟩
  | opens opens =>
      obtain ⟨block, opened⟩ := opens.blocks
      refine ⟨⟨before.scopes.inner :: pushed, ?_, ?_⟩,
        trans_of Scopes.Retains above.retains opens.retains⟩
      · rw [opens.outer, Scopes.frames, outer, List.cons_append]
      · rw [opened, List.length_cons, depth, List.length_cons]
        omega
  | closes closes =>
      obtain ⟨block, closed⟩ := closes.blocks
      rw [closed, List.length_cons] at depth
      cases pushed with
      | nil =>
          simp at depth
          omega
      | cons frame pushed =>
          rw [closes.outer, Scopes.frames, List.cons_append] at outer
          refine ⟨⟨pushed, (List.cons.inj outer).2, ?_⟩,
            trans_of Scopes.Retains above.retains closes.retains⟩
          rw [List.length_cons] at depth
          omega

private theorem above_call {list : Option Text} (name : Text) (mixin : Mixin)
    (resolved : argumentsOf environment list state.scopes.push =
      .ok arguments scopes) :
    Above state (state.call environment name mixin arguments scopes) := by
  have consulted :=
    (consulted_consult (resolved_resolveArguments environment list)).of_ok
      resolved
  obtain ⟨outer, bound⟩ :=
    Scopes.bindAll_spec (mixin.parameters.zip arguments) scopes
  refine ⟨⟨[], outer.trans consulted.outer, by simp [State.call]⟩, ?_⟩
  exact trans_of Scopes.Retains (Scopes.retains_of_bindings rfl)
    (trans_of Scopes.Retains consulted.retains bound)

theorem Above.step (above : Above state current) {next : State}
    (taken : step environment current = .ok true next)
    (deeper : state.blocks.length < next.blocks.length) : Above state next := by
  have moves := moves_step environment current above.closable
  rw [taken] at moves
  exact above.moves moves deeper

end Compile

/-- In a call: what is left of the body stands in front of the text behind the
inclusion. -/
structure InCall (rest : Text) (inCall current : State) : Prop where
  here : current.At (inCall.cursor.pending ++ rest)
  scopes : current.scopes = inCall.scopes
  sheet : current.sheet = inCall.sheet
  dependencies : current.dependencies = inCall.dependencies
  mixins : inCall.mixins.Alike current.mixins
  blocks : current.blocks = inCall.blocks

/-- Behind a call: its text is read, and variables have been looked up, but
those that were visible before are the same. -/
structure Returns (state : State) (rest : Text)
    (last current : State) : Prop where
  ended : last.At []
  closed : last.blocks = state.blocks
  here : current.At rest
  blocks : current.blocks = state.blocks
  scopes : current.scopes = last.scopes
  consulted : state.scopes.Consulted current.scopes
  visible : ∀ name binding, state.scopes.get? name = some binding →
    ∃ uses, current.scopes.get? name = some { binding with uses }
  sheet : current.sheet = last.sheet
  dependencies : current.dependencies = last.dependencies
  mixins : last.mixins.Alike current.mixins

namespace Compile

variable {environment : Environment} {state current first second : State}
  {rest gap text : Text} {block : Block} {blocks : List Block} {cursor : Cursor}

/-- The step at a brace that closes a block. -/
theorem step_closes (here : current.At (gap ++ '}' :: rest))
    (blank : ∀ c ∈ gap, isSpace c = true) {frame : Frame} {frames : List Frame}
    (inside : current.blocks = block :: blocks)
    (outer : current.scopes.outer = frame :: frames) :
    ∃ next, step environment current = .ok true next ∧ next.At rest ∧
      next.blocks = blocks ∧
        next.scopes = { current.scopes with inner := frame, outer := frames } ∧
      next.sheet = current.sheet ∧ next.dependencies = current.dependencies ∧
      next.mixins = current.mixins := by
  have closed := @closeBlock_cons (current.pass gap.length) _ _ _ _ inside outer
  rw [step_skip here blank (by simp [isSpace]), step_closing here.pass,
    bind_apply, closed]
  have passed := here.pass.passOne
  exact ⟨_, rfl, ⟨passed.ready, passed.pending⟩, rfl, rfl, rfl, rfl, rfl⟩

theorem rightText_callFork (cursor : Cursor) :
    (callFork cursor).rightText = cursor.pending := by
  rw [Fork.rightText, callFork, List.nil_append, Cursor.flatten_layers]

theorem inCall_of_twins (behind : cursor.pending = rest)
    (twins : Twins (callFork cursor) text blocks first second) :
    InCall rest first second := by
  have left : first.At (text ++ []) := twins.left
  have right := twins.right
  rw [rightText_callFork, behind] at right
  refine ⟨?_, twins.scopes.symm, twins.sheet.symm,
    twins.dependencies.symm, twins.mixins, twins.others.trans twins.blocks.symm⟩
  rwa [left.pending, List.append_nil]

/-- The brace behind the body ends the call. -/
theorem returns_of_arrived (above : Above state first)
    (behind : cursor.pending = rest)
    (arrived : Arrived (callFork cursor) .callee (block :: state.blocks)
      first second) :
    ∃ last after, step environment first = .ok true last ∧
      step environment second = .ok true after ∧
        Returns state rest last after := by
  obtain ⟨gap, blank, twins⟩ := arrived
  have left := twins.left
  have right := twins.right
  rw [List.append_assoc] at left right
  rw [rightText_callFork, behind] at right
  obtain ⟨pushed, outer, depth⟩ := above.frames
  rw [twins.blocks, List.length_cons] at depth
  obtain rfl : pushed = [] := List.length_eq_zero_iff.mp (by omega)
  obtain ⟨last, taken, ended, closed, popped, sheet, dependencies, mixins⟩ :=
    @step_closes environment _ _ _ _ _ left blank _ _ twins.blocks outer
  obtain ⟨after, stepped, here, blocks, restored, shown, others, kept⟩ :=
    @step_closes environment _ _ _ _ _ right blank _ _ twins.others
      (twins.scopes ▸ outer)
  have consulted : state.scopes.Consulted after.scopes := by
    rw [restored, ← twins.scopes]
    exact ⟨rfl, rfl,
      trans_of Scopes.Retains above.retains (Scopes.retains_of_bindings rfl)⟩
  refine ⟨last, after, taken, stepped, ended, closed, here, blocks,
    ?_, consulted, fun name binding found => consulted.get? found, ?_, ?_, ?_⟩
  · rw [restored, popped, twins.scopes]
  · rw [shown, sheet, twins.sheet]
  · rw [others, dependencies, twins.dependencies]
  · rw [mixins, kept]
    exact twins.mixins

/-- A call that has returned goes no further. -/
theorem eq_of_returns {last after next : State}
    (returns : Returns state rest last after) (inside : state.blocks ≠ [])
    (reached : last.Reaches environment next) : next = last := by
  rcases reached.cases_head with same | ⟨further, taken, -⟩
  · exact same
  · have nested : last.blocks ≠ [] := returns.closed ▸ inside
    rw [step_at returns.ended (by simp)] at taken
    simp [nested, form] at taken

section Runs

variable {call entered : State}

theorem above_of_within {next : State} (above : Above state current)
    (taken : step environment current = .ok true next)
    (within : Within (callFork cursor) .callee (block :: state.blocks)
      next second) :
    Above state next := by
  obtain ⟨inner, text, -, twins⟩ := within
  refine above.step taken ?_
  rw [twins.blocks, List.length_append, List.length_cons]
  omega

variable (behind : cursor.pending = rest)
  (within :
    Within (callFork cursor) .callee (block :: state.blocks) call entered)
  (above : Above state call)
include behind within above

/-- A run is in the call or behind it. -/
theorem run_in_call (reached : entered.Reaches environment current) :
    (∃ inCall, call.Reaches environment inCall ∧ InCall rest inCall current) ∨
      ∃ last after, call.Reaches environment last ∧
        entered.Reaches environment after ∧
        Returns state rest last after ∧ after.Reaches environment current := by
  rcases along_right (by simp) (fun _ _ _ => above_of_within) within
    above reached with
    ⟨inCall, along⟩ | ⟨inCall, middle, along, arrived, later⟩
  · obtain ⟨inner, text, -, twins⟩ := along.within
    exact .inl ⟨inCall, along.left, inCall_of_twins behind twins⟩
  · obtain ⟨last, after, taken, stepped, returns⟩ :=
      @returns_of_arrived environment _ _ _ _ _ _ along.kept behind arrived
    rcases later.cases_head with rfl | ⟨next, first, further⟩
    · obtain ⟨inner, text, -, twins⟩ := along.within
      exact .inl ⟨inCall, along.left, inCall_of_twins behind twins⟩
    · rw [stepped] at first
      cases first
      exact .inr ⟨last, after, .step along.left taken,
        .step along.right stepped, returns, further⟩

/-- While there is text left, the call and the run are side by side. -/
theorem call_in_run (inside : state.blocks ≠ []) {inCall : State}
    (reached : call.Reaches environment inCall) :
    (∃ current, Along environment (callFork cursor) .callee
      (block :: state.blocks) (Above state)
        call entered inCall current) ∨
      (∃ after, entered.Reaches environment after ∧
        Returns state rest inCall after) ∨
      ∃ current final, entered.Reaches environment current ∧
        step environment current = .error (.endless .expansion) final := by
  rcases along_left (by simp) (fun _ _ _ => above_of_within) within
    above reached with
    ⟨current, along⟩ | ⟨first, current, along, arrived, later⟩ |
      ⟨current, fault, final, right, failed, rfl, -⟩
  · exact .inl ⟨current, along⟩
  · obtain ⟨last, after, taken, stepped, returns⟩ :=
      @returns_of_arrived environment _ _ _ _ _ _ along.kept behind arrived
    rcases later.cases_head with rfl | ⟨next, following, further⟩
    · exact .inl ⟨current, along⟩
    · rw [taken] at following
      cases following
      obtain rfl := eq_of_returns returns inside further
      exact .inr (.inl ⟨after, .step along.right stepped, returns⟩)
  · exact .inr (.inr ⟨current, final, right, failed⟩)

/-- The run returns if the call does. -/
theorem run_returns (inside : state.blocks ≠ []) {last : State}
    (reached : call.Reaches environment last)
    (ended : last.cursor.pending = []) :
    (∃ after, entered.Reaches environment after ∧
      Returns state rest last after) ∨
      ∃ current final, entered.Reaches environment current ∧
        step environment current = .error (.endless .expansion) final := by
  rcases call_in_run behind within above inside reached with
    ⟨current, along⟩ | others
  · obtain ⟨inner, text, holds, twins⟩ := along.within
    have empty := twins.left.pending
    rw [ended] at empty
    exact absurd (List.append_eq_nil_iff.mp empty.symm).1
      (Layout.nonempty holds)
  · exact others

/-- The run fails if the call does. -/
theorem run_fails (inside : state.blocks ≠ []) {inCall failed : State}
    {error : Error} (reached : call.Reaches environment inCall)
    (more : inCall.cursor.pending ≠ [])
    (fails : step environment inCall = .error error failed) :
    ∃ current final, entered.Reaches environment current ∧
      (step environment current = .error error final ∨
        step environment current = .error (.endless .expansion) final) := by
  rcases call_in_run behind within above inside reached with
    ⟨current, along⟩ | ⟨after, -, returns⟩ | ⟨current, final, right, full⟩
  · rcases along.next (by simp) fun _ _ _ =>
      above_of_within with arrived | matched
    · obtain ⟨last, after, taken, -⟩ :=
        @returns_of_arrived environment _ _ _ _ _ _ along.kept behind arrived
      rw [fails] at taken
      cases taken
    · rw [fails] at matched
      cases stepped : step environment current with
      | ok more next =>
          rw [stepped] at matched
          exact matched.elim
      | error fault final =>
          rw [stepped] at matched
          refine ⟨current, final, along.right, ?_⟩
          rcases matched with rfl | ⟨rfl, -⟩
          · exact .inl stepped
          · exact .inr stepped
  · exact absurd returns.ended.pending more
  · exact ⟨current, final, right, .inr full⟩

end Runs

end Compile

/-- A run from an inclusion next to the call of the body: it is in the call or
behind it; it returns if the call does, and fails in the call if the call does,
unless there are too many sources. -/
structure FollowsCall (environment : Environment) (rest : Text)
    (state call entered : State) :
    Prop where
  runs : ∀ current, entered.Reaches environment current →
    (∃ inCall, call.Reaches environment inCall ∧ InCall rest inCall current) ∨
      ∃ last after, call.Reaches environment last ∧
        entered.Reaches environment after ∧
        Returns state rest last after ∧ after.Reaches environment current
  returns : ∀ last, call.Reaches environment last → last.cursor.pending = [] →
    (∃ after, entered.Reaches environment after ∧
      Returns state rest last after) ∨
      ∃ current final, entered.Reaches environment current ∧
        Compile.step environment current = .error (.endless .expansion) final
  fails : ∀ inCall error failed, call.Reaches environment inCall →
    inCall.cursor.pending ≠ [] →
      Compile.step environment inCall = .error error failed →
    ∃ current final, entered.Reaches environment current ∧
      (Compile.step environment current = .error error final ∨
        Compile.step environment current = .error (.endless .expansion) final)

/-- Including a mixin is calling its body in place, if the bodies are
complete. -/
theorem inclusion_calls (environment : Environment)
    (inclusion : Inclusion) (rest : Text) (state : State) (mixin : Mixin)
    (arguments : List Text) (scopes : Scopes)
    (here : state.At (inclusion.text ++ rest)) (inside : state.blocks ≠ [])
    (bodies : state.mixins.Bodies Complete)
    (registered : state.mixins.get? inclusion.name = some mixin)
    (resolved : argumentsOf environment inclusion.contents state.scopes.push =
      .ok arguments scopes)
    (fitting : arguments.length = mixin.parameters.length) :
    (Cursor.maxSources ≤
      (state.pass inclusion.text.length).cursor.below.length + 1 ∧
        ∃ final,
          Compile.step environment state = .error (.endless .expansion) final) ∨
      ∃ entered, Compile.step environment state = .ok true entered ∧
        FollowsCall environment rest state
          (state.call environment inclusion.name mixin arguments scopes)
            entered := by
  have behind : (state.pass inclusion.text.length).cursor.pending = rest :=
    here.pass.pending
  rcases Compile.step_enters here inside bodies registered resolved fitting with
    full | ⟨entered, stepped, within⟩
  · exact .inl full
  · refine .inr ⟨entered, stepped, ?_⟩
    generalize (state.pass inclusion.text.length).cursor = cursor
      at behind within
    have above := Compile.above_call inclusion.name mixin resolved
    exact ⟨fun current => Compile.run_in_call behind within above,
      fun last => Compile.run_returns behind within above inside,
      fun inCall error failed => Compile.run_fails behind within above inside⟩

namespace CallSample

/-- `@include  m ($on) ;` -/
def inclusion : Inclusion where
  gap := "  ".toList
  name := "m".toList
  space := " ".toList
  list := some
    { contents := "$on".toList
      trail := "\t".toList
      grouped := fun _ => rfl
      blank := by decide }
  apart := by decide
  gapBlank := by decide
  named := by decide
  nameChars := by decide
  spaceBlank := by decide

/-- A mixin with a declaration, a branch and a nested block. -/
def mixin : Mixin where
  name := "m".toList
  parameters := ["c".toList]
  body := "x:$c;@if $c\x7by:z\x7d.b\x7b$c:d\x7d".toList
  file := none
  line := 1

def state (text : Text) : State where
  scopes := ({} : Scopes).bind { name := "on".toList, value := "true".toList }
  mixins := ({} : Mixins).define mixin
  cursor := (Cursor.ofText text none).advance
  blocks := [{ selectors := [".a".toList] }]

/-- The variables after the argument was resolved. -/
def counted : Scopes :=
  (({} : Scopes).bind
    { name := "on".toList, value := "true".toList, uses := 1 }).push

theorem resolved : argumentsOf {} inclusion.contents (state []).scopes.push =
    .ok ["true".toList] counted := by
  decide +kernel

end CallSample

theorem inclusion_calls_sample :
    let start := CallSample.state (CallSample.inclusion.text ++ "x:y;".toList)
    ∃ entered, Compile.step {} start = .ok true entered ∧
      FollowsCall {} "x:y;".toList start
        (start.call {} "m".toList CallSample.mixin ["true".toList]
          CallSample.counted) entered := by
  intro start
  have bodies : start.mixins.Bodies Complete := by
    intro mixin member
    obtain rfl := List.mem_singleton.mp member
    decide
  rcases inclusion_calls {} CallSample.inclusion "x:y;".toList start
    CallSample.mixin ["true".toList] CallSample.counted (State.at_start rfl)
      (by simp [start, CallSample.state])
    bodies rfl CallSample.resolved rfl with ⟨full, -⟩ | called
  · have single := congrArg List.length
      (Cursor.layers_passed CallSample.inclusion.text "x:y;".toList none)
    rw [Cursor.layers, List.length_cons, List.length_map, List.length_singleton]
      at single
    change
      _ ≤ (Cursor.advanceBy (Cursor.ofText _ none).advance _).below.length + 1
      at full
    rw [single] at full
    exact absurd full (by decide)
  · exact called

namespace CallSample

/-- A mixin with a definition at the end of a branch, and a rule that includes
it. -/
def sheet (ending : Text) : Text :=
  "@mixin m \x7b @if true \x7b $x: 1".toList ++ ending ++
    " \x7d y \x7b \x7d \x7d .a \x7b @include m; color: red; \x7d".toList

end CallSample

/-- A definition at the end of a branch runs on into the next statement, and
takes a brace with it.  So the body closes a block too many, unless the
definition ends with a semicolon. -/
theorem inclusion_overruns :
    (Compilation.process {} 9 {} (CallSample.sheet []) none).1.message? =
        some "property outside of a selector block: 'color: red'".toList ∧
      (Compilation.process {} 12 {} (CallSample.sheet [';']) none).1.message? =
        none ∧
      ((Compilation.process {} 12 {} (CallSample.sheet [';']) none).2.render
        {}).1 =
        ".a \x7b\n\tcolor: red;\n\x7d\n".toList := by
  decide +kernel

end Stylesheet
