import Mathlib.Data.List.Basic
import Mathlib.Data.List.TakeWhile
import Stylesheet.Proofs.Footprint
import Stylesheet.Proofs.Pending
import Stylesheet.Proofs.PlainText

/-!
# Reading known text

What a reader does is settled by the text that stands at the cursor.  `State.At`
says which text that is, and `State.pass` moves the cursor over the front of it.
Each lemma takes a text that starts in the way a reader looks for, and tells
what it reads and how far it goes, whatever follows.
-/

namespace Stylesheet

/-- Every text starts with the characters of a kind, as many as there are. -/
theorem split_while (kind : Char → Bool) (text : Text) :
    ∃ front rest, text = front ++ rest ∧ (∀ c ∈ front, kind c = true) ∧
      ∀ c, rest.head? = some c → kind c = false := by
  refine ⟨text.takeWhile kind, text.dropWhile kind, ?_, ?_, ?_⟩
  · rw [List.takeWhile_append_dropWhile]
  · exact fun c member => List.mem_takeWhile_imp member
  · intro c head
    have not := List.head?_dropWhile_not kind text
    rw [head] at not
    simpa using not

namespace State

/-- The cursor stands at the start of `text`. -/
structure At (state : State) (text : Text) : Prop where
  ready : state.cursor.Ready
  pending : state.cursor.pending = text

/-- Moves the cursor over `count` characters. -/
def pass (state : State) (count : Nat) : State :=
  { state with cursor := state.cursor.advanceBy count }

@[simp] theorem pass_zero (state : State) : state.pass 0 = state :=
  rfl

@[simp] theorem pass_pass (state : State) (first second : Nat) :
    (state.pass first).pass second = state.pass (first + second) := by
  simp [pass, Cursor.advanceBy_add]

@[simp] theorem pass_compilation (state : State) (count : Nat) :
    (state.pass count).toCompilation = state.toCompilation :=
  rfl

@[simp] theorem pass_blocks (state : State) (count : Nat) :
    (state.pass count).blocks = state.blocks :=
  rfl

@[simp] theorem pass_noting (state : State) (count : Nat)
    (scopes : Scopes) (log : Log) :
    (state.noting scopes log).pass count =
      (state.pass count).noting scopes log :=
  rfl

variable {state : State} {text rest : Text} {c : Char}

theorem at_start {file : Option Text}
    (start : state.cursor = (Cursor.ofText text file).advance) :
    state.At text where
  ready := start ▸ Cursor.ready_advance _
  pending := by
    rw [start, ← Cursor.flatten_layers, Cursor.layers_ofText,
      List.flatten_singleton]

theorem At.noting (here : state.At text) (scopes : Scopes) (log : Log) :
    (state.noting scopes log).At text :=
  ⟨here.ready, here.pending⟩

theorem At.pass (here : state.At (text ++ rest)) :
    (state.pass text.length).At rest where
  ready := Cursor.ready_advanceBy here.ready _
  pending := by
    change (state.cursor.advanceBy text.length).pending = rest
    rw [Cursor.pending_advanceBy here.ready, here.pending, List.drop_left]

theorem At.passOne (here : state.At (c :: rest)) : (state.pass 1).At rest :=
  @At.pass state [c] rest here

theorem At.current (here : state.At text) :
    state.cursor.current = text.head? := by
  rw [Cursor.current_eq_head? here.ready, here.pending]

theorem At.isAt (here : state.At (c :: rest)) : state.cursor.isAt c = true := by
  rw [Cursor.isAt, here.current]
  simp

theorem At.not_isAt (here : state.At text) (other : text.head? ≠ some c) :
    state.cursor.isAt c = false := by
  rw [Cursor.isAt, here.current]
  simpa using other

end State

namespace Compile

open State

variable {state : State} {text rest : Text} {c : Char}

theorem reading_advance :
    reading (modify Cursor.advance) state = .ok ⟨⟩ (state.pass 1) :=
  rfl

theorem reading_readName (here : state.At (text ++ rest))
    (name : ∀ c ∈ text, isNameChar c = true)
    (stops : ∀ c, rest.head? = some c → isNameChar c = false) :
    reading Reader.readName state = .ok text (state.pass text.length) := by
  have taken : state.cursor.pending.takeWhile isNameChar = text := by
    rw [here.pending, takeWhile_append name stops]
  simp only [reading, Reader.readName, Reader.pass, bind_apply,
    get_apply, modify_apply, pure_apply, taken]
  rfl

theorem reading_skipSpace (here : state.At (text ++ rest))
    (space : ∀ c ∈ text, isSpace c = true)
    (stops : ∀ c, rest.head? = some c → isSpace c = false) :
    reading Reader.skipSpace state = .ok ⟨⟩ (state.pass text.length) := by
  have taken : state.cursor.pending.takeWhile isSpace = text := by
    rw [here.pending, takeWhile_append space stops]
  have moved := Cursor.skipSpace_eq here.ready
  rw [taken] at moved
  simp [reading, Reader.skipSpace, moved, State.pass]

theorem reading_expect (here : state.At (c :: rest)) :
    reading (Cursor.expect c) state = .ok ⟨⟩ (state.pass 1) := by
  simp [reading, Cursor.expect, here.isAt, State.pass, Cursor.advanceBy]

theorem reading_skipChar (here : state.At (c :: rest)) :
    reading (Reader.skipChar c) state = .ok ⟨⟩ (state.pass 1) := by
  simp [reading, Reader.skipChar, here.isAt, State.pass, Cursor.advanceBy]

theorem reading_readUntil {stops : List Char} (here : state.At (text ++ rest))
    (spans : Nesting.spanUntil stops.contains {} (text ++ rest) = text)
    (closed : (Nesting.after {} text).checkClosed = .ok ()) :
    reading (Reader.readUntil stops) state =
      .ok text (state.pass text.length) := by
  simp [reading, Reader.readUntil, Reader.pass, here.pending, spans,
    closed, State.pass]

theorem reading_readGroup {opening closing : Char}
    (here : state.At (opening :: (text ++ closing :: rest)))
    (spans : spanGroup opening closing 0 .outside (text ++ closing :: rest) =
      some text) :
    reading (Reader.readGroup opening closing) state =
      .ok text (state.pass (1 + text.length + 1)) := by
  have within : (state.pass 1).cursor.pending = text ++ closing :: rest :=
    here.passOne.pending
  have entered : Cursor.expect opening state.cursor =
      .ok ⟨⟩ (state.pass 1).cursor := by
    simp [Cursor.expect, here.isAt, State.pass, Cursor.advanceBy]
  have left : (state.pass (1 + text.length + 1)).cursor =
      ((state.pass 1).cursor.advanceBy text.length).advance := by
    change state.cursor.advanceBy (1 + text.length + 1) = _
    rw [Cursor.advanceBy_add _ _ 1, Cursor.advanceBy_add _ 1]
    rfl
  simp only [reading, Reader.readGroup, bind_apply, entered, get_apply,
    within, spans, Reader.pass, modify_apply, pure_apply]
  rw [← left]
  rfl

theorem reading_skipWord {word : Text} (here : state.At (word ++ rest))
    (stops : ∀ c, rest.head? = some c → isNameChar c = false) :
    reading (Reader.skipWord? word) state =
      .ok true (state.pass word.length) := by
  have found : word.isPrefixOf? state.cursor.pending = some rest := by
    rw [here.pending, List.isPrefixOf?_eq_some_iff_append_eq]
  have whole : (rest.head?.map isNameChar).getD false = false := by
    cases rest with
    | nil => rfl
    | cons c rest => exact stops c rfl
  simp only [reading, Reader.skipWord?, bind_apply, get_apply, found,
    whole, Reader.pass]
  rfl

theorem reading_longerWord {word : Text} (here : state.At (word ++ c :: rest))
    (longer : isNameChar c = true) :
    reading (Reader.skipWord? word) state = .ok false state := by
  have found : word.isPrefixOf? state.cursor.pending = some (c :: rest) := by
    rw [here.pending, List.isPrefixOf?_eq_some_iff_append_eq]
  simp [reading, Reader.skipWord?, found, longer]

theorem reading_noWord {word : Text} (here : state.At text)
    (absent : ¬ word <+: text) :
    reading (Reader.skipWord? word) state = .ok false state := by
  have missing : word.isPrefixOf? state.cursor.pending = none := by
    rw [here.pending]
    cases found : word.isPrefixOf? text with
    | none => rfl
    | some rest =>
        exact absurd
          ⟨rest, List.isPrefixOf?_eq_some_iff_append_eq.mp found⟩ absent
  simp [reading, Reader.skipWord?, missing]

theorem at_splice {source : Source} {state next : State}
    {value : Unit} {rest : Text}
    (spliced : splice source state = .ok value next) (here : state.At rest) :
    next.At (source.text ++ rest) ∧ next.blocks = state.blocks ∧
      next.mixins = state.mixins := by
  obtain ⟨ready, layers, -⟩ := Cursor.layers_insert (splice_ok spliced)
  have quiet := (quiet_splice source).of_ok spliced
  refine ⟨⟨ready, ?_⟩, quiet.blocks, quiet.mixins⟩
  rw [← Cursor.flatten_layers, layers, flatten_skip, List.drop_zero,
    List.flatten_cons, Cursor.flatten_layers, here.pending]

variable {environment : Environment} {lead : Text}

/-- A step passes over the white space and looks at the character behind it. -/
theorem step_skip (here : state.At (lead ++ rest))
    (space : ∀ c ∈ lead, isSpace c = true)
    (stops : ∀ c, rest.head? = some c → isSpace c = false) :
    step environment state = step environment (state.pass lead.length) := by
  have skipped := reading_skipSpace here space stops
  have still := @reading_skipSpace (state.pass lead.length) [] rest here.pass
    (by simp) stops
  rw [List.length_nil, State.pass_zero] at still
  simp only [step, bind_apply, skipped, still]

/-- What a step does is settled by the first character that is not white
space. -/
theorem step_at (here : state.At rest)
    (stops : ∀ c, rest.head? = some c → isSpace c = false) :
    step environment state =
      (match rest.head? with
        | none =>
            do if (← get).blocks.isEmpty then return false else form .blockOpen
        | some '}' => do closeBlock; return true
        | some ';' => do reading (modify Cursor.advance); return true
        | some '$' => do variableStatement environment; return true
        | some '@' => do directive environment; return true
        | some _ =>
            do statement environment; return true : Compile Bool) state := by
  have still := @reading_skipSpace state [] _ here (by simp) stops
  rw [List.length_nil, State.pass_zero] at still
  rw [← here.current, step, bind_apply, still]
  rfl

theorem step_closing (here : state.At ('}' :: rest)) :
    step environment state = (do closeBlock; return true) state :=
  step_at here (by simp [isSpace])

theorem step_variable (here : state.At ('$' :: rest)) :
    step environment state =
      (do variableStatement environment; return true) state :=
  step_at here (by simp [isSpace])

theorem step_directive (here : state.At ('@' :: rest)) :
    step environment state = (do directive environment; return true) state :=
  step_at here (by simp [isSpace])

theorem step_ended (here : state.At []) (closed : state.blocks = []) :
    step environment state = .ok false state := by
  rw [step_at here (by simp)]
  simp [closed]

theorem step_statement (here : state.At (c :: rest))
    (visible : isSpace c = false) (other : c ∉ ['}', ';', '$', '@']) :
    step environment state = (do statement environment; return true) state := by
  rw [step_at here (by simpa using visible), List.head?_cons]
  simp only [List.mem_cons, List.not_mem_nil, or_false, not_or] at other
  refine congrFun ?_ state
  split
  case h_6 => rfl
  all_goals simp_all

theorem directive_at {name gap : Text}
    (here : state.At ('@' :: (name ++ (gap ++ rest))))
    (nameChars : ∀ c ∈ name, isNameChar c = true)
    (space : ∀ c ∈ gap, isSpace c = true)
    (apart : ∀ c, (gap ++ rest).head? = some c → isNameChar c = false)
    (stops : ∀ c, rest.head? = some c → isSpace c = false) :
    directive environment state =
      (if name == "mixin".toList then
          if !state.blocks.isEmpty then form .mixinNested else mixinDirective
        else if name == "include".toList then
          if !state.blocks.isEmpty then includeDirective environment
          else form .includeOutside
        else if name == "import".toList then importDirective environment
        else if name == "if".toList then conditionDirective environment
        else throw (.unsupportedDirective name) : Compile Unit)
      (state.pass (1 + name.length + gap.length)) := by
  have readName := reading_readName here.passOne nameChars apart
  have skipped := reading_skipSpace here.passOne.pass space stops
  simp only [directive, bind_apply, reading_advance, readName,
    skipped, get_apply]
  simp only [State.pass_pass, State.pass_blocks]

theorem directive_include {gap : Text}
    (here : state.At ("@include".toList ++ (gap ++ rest)))
    (space : ∀ c ∈ gap, isSpace c = true)
    (apart : ∀ c, (gap ++ rest).head? = some c → isNameChar c = false)
    (stops : ∀ c, rest.head? = some c → isSpace c = false)
    (inside : state.blocks ≠ []) :
    directive environment state =
      includeDirective environment
        (state.pass ("@include".toList.length + gap.length)) := by
  have dispatched := @directive_at _ _ environment "include".toList gap here
    (by decide) space apart stops
  rw [dispatched, if_neg (by decide), if_pos (by decide),
    if_pos (by simpa using inside)]
  rfl

theorem directive_if {gap : Text}
    (here : state.At ("@if".toList ++ (gap ++ rest)))
    (space : ∀ c ∈ gap, isSpace c = true)
    (apart : ∀ c, (gap ++ rest).head? = some c → isNameChar c = false)
    (stops : ∀ c, rest.head? = some c → isSpace c = false) :
    directive environment state =
      conditionDirective environment
        (state.pass ("@if".toList.length + gap.length)) := by
  have dispatched := @directive_at _ _ environment "if".toList gap here
    (by decide) space apart stops
  rw [dispatched, if_neg (by decide), if_neg (by decide), if_neg (by decide),
    if_pos (by decide)]
  rfl

private theorem resolveArguments_none :
    resolveArguments environment none state = .ok [] state := by
  simp [resolveArguments]

private theorem comment_ok (environment : Environment) (text : Text)
    (state : State) :
    ∃ sheet, comment environment text state = .ok ⟨⟩ { state with sheet } := by
  unfold comment
  rw [modify_apply]
  split
  · exact ⟨_, rfl⟩
  · exact ⟨_, rfl⟩

private theorem expand_unparametrized {mixins : Mixins} {name : Text}
    {mixin : Mixin} (registered : mixins.get? name = some mixin)
    (unparametrized : mixin.parameters = []) (file : Option Text)
    (scopes : Scopes) :
    mixins.expanded name [] file scopes =
      .ok
        ({ text := mixin.body ++ ['}'], file := mixin.file,
           line := mixin.line },
        mixins.replace (mixin.recordUse file), scopes) := by
  simp [Mixins.expanded, registered, unparametrized]

/-- An inclusion without arguments opens a block and splices the body in. -/
theorem includeDirective_at {name : Text} {mixin : Mixin}
    (here : state.At (name ++ ';' :: rest)) (nonempty : name ≠ [])
    (nameChars : ∀ c ∈ name, isNameChar c = true)
    (registered : state.mixins.get? name = some mixin)
    (unparametrized : mixin.parameters = []) :
    ∃ (entered : State) (file : Option Text),
      includeDirective environment state =
        splice { text := mixin.body ++ ['}'], file := mixin.file,
                 line := mixin.line } entered ∧
      entered.cursor = (state.pass (name.length + 1)).cursor ∧ entered.At rest ∧
      entered.blocks ≠ [] ∧
      entered.mixins = state.mixins.replace (mixin.recordUse file) := by
  have readName := reading_readName here nameChars (by simp [isNameChar])
  have atEnd := here.pass
  have passed := atEnd.passOne
  rw [State.pass_pass] at passed
  have skipped := @reading_skipSpace _ [] _ atEnd (by simp) (by simp [isSpace])
  have noList : (state.pass name.length).cursor.isAt '(' = false :=
    atEnd.not_isAt (by simp)
  have filled : name.isEmpty = false := by simpa using nonempty
  have current := atEnd.current
  rw [includeDirective_eq]
  simp only [expansion, mixinName, argumentList?, endInclude, bind_apply,
    readName, filled, Bool.false_eq_true, if_false, skipped, List.length_nil,
    State.pass_zero, pure_apply, get_apply, noList, current, List.head?_cons,
    reading_advance, State.pass_pass, openBlock, modify_apply,
    resolveArguments_none, record]
  obtain ⟨sheet, commented⟩ := comment_ok environment
    ("include mixin: ".toList ++ name ++ " args: ".toList ++
      [','].intercalate [])
    { state.pass (name.length + 1) with
      scopes := state.scopes.push
      log := state.log.add (.including name)
      blocks := state.blocks.headD {} :: state.blocks }
  have expanded := expand_unparametrized registered unparametrized
    (state.pass (name.length + 1)).cursor.file state.scopes.push
  erw [commented]
  dsimp only [State.pass_compilation]
  erw [expanded]
  exact ⟨_, _, rfl, rfl, ⟨passed.ready, passed.pending⟩, by simp, rfl⟩

theorem resolveValue_true : resolveValue environment "true".toList state =
    .ok "true".toList state := by
  have replaced := @Variable.substitute_plain "true".toList (by decide)
    state.scopes
  rw [resolveValue_plain (by decide) (by decide) replaced]
  rfl

theorem at_afterBranch {condition body : Text}
    (here : state.At (condition ++ '{' :: (body ++ '}' :: rest))) :
    (state.pass (condition.length + (1 + body.length + 1))).At rest := by
  have inside := here.pass.passOne.pass.passOne
  simp only [State.pass_pass] at inside
  rwa [Nat.add_assoc, Nat.add_assoc, ← Nat.add_assoc 1] at inside

theorem branchBody_at {body : Text}
    (here : state.At ('{' :: (body ++ '}' :: rest)))
    (group : spanGroup '{' '}' 0 .outside (body ++ '}' :: rest) = some body) :
    ∃ source : Source, source.text = body ∧
      branchBody state = .ok source (state.pass (1 + body.length + 1)) := by
  simp only [branchBody, bind_apply, get_apply, reading_readGroup here group]
  exact ⟨_, rfl, rfl⟩

/-- A branch that is not asked for is passed over. -/
theorem branch_passed {condition body : Text}
    (here : state.At (condition ++ '{' :: (body ++ '}' :: rest)))
    (spans : Nesting.spanUntil ['{'].contains {}
      (condition ++ '{' :: (body ++ '}' :: rest)) =
      condition)
    (closed : (Nesting.after {} condition).checkClosed = .ok ())
    (group : spanGroup '{' '}' 0 .outside (body ++ '}' :: rest) = some body) :
    branch environment false state =
      .ok none (state.pass (condition.length + (1 + body.length + 1))) := by
  have read := reading_readUntil here spans closed
  obtain ⟨source, -, passed⟩ := branchBody_at here.pass group
  have standing := here.pass.isAt
  simp only [branch, bind_apply, read, get_apply, standing, Bool.not_true,
    Bool.false_eq_true, if_false, passed, pure_apply, State.pass_pass]

theorem evaluateCondition_true :
    Expr.evaluateCondition "true".toList = .ok true := by
  rfl

/-- A branch is chosen if its condition holds. -/
theorem branch_chosen {condition value body : Text}
    (here : state.At (condition ++ '{' :: (body ++ '}' :: rest)))
    (spans : Nesting.spanUntil ['{'].contains {}
      (condition ++ '{' :: (body ++ '}' :: rest)) =
      condition)
    (closed : (Nesting.after {} condition).checkClosed = .ok ())
    (group : spanGroup '{' '}' 0 .outside (body ++ '}' :: rest) = some body)
    (resolved : resolveValue environment condition.trim
      (state.pass condition.length) =
      .ok value (state.pass condition.length))
    (holds : Expr.evaluateCondition value = .ok true) :
    ∃ source : Source, source.text = body ∧ branch environment true state =
      .ok (some source)
        (state.pass (condition.length + (1 + body.length + 1))) := by
  have read := reading_readUntil here spans closed
  obtain ⟨source, text, passed⟩ := branchBody_at here.pass group
  have standing := here.pass.isAt
  refine ⟨source, text, ?_⟩
  simp only [branch, bind_apply, read, get_apply, standing, Bool.not_true,
    Bool.false_eq_true, if_false, if_true, resolved, evaluateCondition, holds,
    passed, pure_apply, State.pass_pass]

theorem elseBranches_done {fuel : Nat} {chosen : Option Source} {gap : Text}
    (here : state.At (gap ++ rest)) (space : ∀ c ∈ gap, isSpace c = true)
    (stops : ∀ c, rest.head? = some c → isSpace c = false)
    (absent : ¬ "@else".toList <+: rest) :
    elseBranches environment (fuel + 1) chosen state =
      .ok chosen (state.pass gap.length) := by
  have skipped := reading_skipSpace here space stops
  have noElse := reading_noWord here.pass absent
  simp only [elseBranches, bind_apply, skipped, noElse, Bool.false_eq_true,
    if_false, pure_apply]

/-- An `@else if` branch after the chosen one is passed over with its
condition. -/
theorem elseBranches_passed {fuel : Nat} {source : Source}
    {condition body : Text} (here : state.At ("@else".toList ++ ' ' ::
      ("if".toList ++ (condition ++ '{' :: (body ++ '}' :: rest)))))
    (apart : ∀ c, condition.head? = some c → isNameChar c = false)
    (spans : Nesting.spanUntil ['{'].contains {}
      (condition ++ '{' :: (body ++ '}' :: rest)) =
      condition)
    (closed : (Nesting.after {} condition).checkClosed = .ok ())
    (group : spanGroup '{' '}' 0 .outside (body ++ '}' :: rest) = some body) :
    elseBranches environment (fuel + 1) (some source) state =
      elseBranches environment fuel (some source)
        (state.pass (8 + (condition.length + (1 + body.length + 1)))) := by
  have stops : ∀ {text : Text} {first : Char}, text.head? = some first →
      isSpace first = false →
      ∀ c, text.head? = some c → isSpace c = false := by
    intro text first starts visible c same
    rw [starts, Option.some.injEq] at same
    rwa [← same]
  have skipped :=
    @reading_skipSpace _ [] _ here (by simp) (@stops _ '@' rfl (by decide))
  have noName : ∀ c,
      (condition ++ '{' :: (body ++ '}' :: rest)).head? = some c →
      isNameChar c = false := by
    intro c first
    cases condition with
    | nil =>
        obtain rfl : '{' = c := by simpa using first
        decide
    | cons d others => exact apart c first
  have word := reading_skipWord here (by simp [isNameChar])
  have space := @reading_skipSpace _ [' '] _ here.pass (by simp [isSpace])
    (@stops _ 'i' rfl (by decide))
  have wordIf := reading_skipWord here.pass.passOne noName
  have passed :=
    @branch_passed _ _ environment _ _ here.pass.passOne.pass spans closed group
  simp only [elseBranches, bind_apply, skipped, List.length_nil,
    State.pass_zero, word, if_true, space, List.length_singleton, wordIf,
    Option.isNone_some, passed, Option.or]
  simp only [State.pass_pass]
  rfl

/-- The first branch is chosen, and the `@else if` branch after it is passed
over. -/
theorem conditionDirective_chosen {condition value body other unread : Text}
    (here :
      state.At (condition ++ '{' :: (body ++ '}' :: ("@else".toList ++ ' ' ::
      ("if".toList ++ (other ++ '{' :: (unread ++ '}' :: rest)))))))
    (spans : ∀ following,
      Nesting.spanUntil ['{'].contains {} (condition ++ '{' :: following) =
      condition)
    (closed : (Nesting.after {} condition).checkClosed = .ok ())
    (group : ∀ following,
      spanGroup '{' '}' 0 .outside (body ++ '}' :: following) = some body)
    (resolved : resolveValue environment condition.trim
      (state.pass condition.length) =
      .ok value (state.pass condition.length))
    (holds : Expr.evaluateCondition value = .ok true)
    (apart : ∀ c, other.head? = some c → isNameChar c = false)
    (spansOther : ∀ following,
      Nesting.spanUntil ['{'].contains {} (other ++ '{' :: following) =
      other)
    (closedOther : (Nesting.after {} other).checkClosed = .ok ())
    (groupOther : ∀ following,
      spanGroup '{' '}' 0 .outside (unread ++ '}' :: following) =
      some unread)
    (stops : ∀ c, rest.head? = some c → isSpace c = false)
    (absent : ¬ "@else".toList <+: rest) (filled : body.trim.isEmpty = false) :
    ∃ (source : Source) (count : Nat), source.text = body ∧
      (state.pass count).At rest ∧
      conditionDirective environment state = splice source (state.pass count) ∧
      count = condition.length + (1 + body.length + 1) +
        (8 + (other.length + (1 + unread.length + 1))) := by
  obtain ⟨source, text, first⟩ :=
    branch_chosen here (spans _) closed (group _) resolved holds
  have atElse := at_afterBranch here
  have second := fun fuel =>
    @elseBranches_passed _ _ environment fuel source _ _ atElse apart
    (spansOther _) closedOther (groupOther _)
  have counted : ∀ tail, 5 + (1 + (2 + tail)) = 8 + tail := by omega
  have atEnd := at_afterBranch atElse.pass.passOne.pass
  rw [State.pass_pass, State.pass_pass, State.pass_pass, State.pass_pass,
    show "@else".toList.length = 5 from rfl,
    show "if".toList.length = 2 from rfl, counted] at atEnd
  have last :=
    fun fuel => @elseBranches_done _ _ environment fuel (some source) [] atEnd
    (by simp) stops absent
  have left :
      (state.pass
        (condition.length + (1 + body.length + 1))).cursor.pending.length =
      4 +
        (' ' ::
          ("if".toList ++ (other ++ '{' :: (unread ++ '}' :: rest)))).length +
            1 := by
    rw [atElse.pending, List.length_append]
    exact Nat.add_right_comm 4 1 _
  refine ⟨source, _, text, atEnd, ?_, rfl⟩
  simp only [conditionDirective, bind_apply, first, get_apply, second]
  simp only [State.pass_pass, left, last, List.length_nil,
    Nat.add_zero, text, filled, Bool.false_eq_true, if_false]

end Compile

end Stylesheet
