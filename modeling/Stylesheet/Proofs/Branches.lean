import Stylesheet.Proofs.Alike
import Stylesheet.Proofs.Complete
import Stylesheet.Proofs.Reading

/-!
# Chains of branches

An `@if` with its `@else` branches is one statement.  Its conditions are asked
for in turn, and the body of the first branch whose condition holds is read in
place of the statement; the other bodies and the conditions after that branch
are passed over.  `choose` says which body that is without looking at a cursor.
-/

namespace Stylesheet

/-- The text closes each brace and string that it opens, and no other brace. -/
def Balanced (text : Text) : Prop :=
  Bracing.contains {} text = true ∧ Bracing.after {} text = {}

instance (text : Text) : Decidable (Balanced text) :=
  inferInstanceAs (Decidable (_ ∧ _))

private theorem spanGroup_contained {bracing : Bracing} {text : Text}
    (kept : bracing.contains text = true) (ended : bracing.after text = {})
    (following : Text) :
    spanGroup '{' '}' bracing.depth bracing.quoting (text ++ '}' :: following) =
      some text := by
  induction text generalizing bracing with
  | nil =>
      obtain rfl : bracing = {} := ended
      simp [spanGroup, Quoting.isOutside]
  | cons c rest ih =>
      rw [Bracing.contains, Bool.and_eq_true, Bool.not_eq_true',
        Bool.eq_false_iff] at kept
      refine spanGroup_step (fun closing => kept.1 ?_) (ih kept.2 ended)
      simp [closing]

theorem Balanced.group {text : Text} (balanced : Balanced text)
    (following : Text) :
    spanGroup '{' '}' 0 .outside (text ++ '}' :: following) = some text :=
  spanGroup_contained balanced.1 balanced.2 following

/-- A text before an opening brace is read up to that brace. -/
def IsCondition (text : Text) : Prop :=
  Nesting.spanUntil ['{'].contains {} (text ++ ['{']) = text

instance (text : Text) : Decidable (IsCondition text) :=
  inferInstanceAs (Decidable (_ = _))

theorem Nesting.spanUntil_stop {stop : Char → Bool} {nesting : Nesting}
    {text : Text} {c : Char}
    (spans : nesting.spanUntil stop (text ++ [c]) = text) :
    (nesting.after text).isTop c = true ∧
      ∀ following, nesting.spanUntil stop (text ++ c :: following) = text := by
  induction text generalizing nesting with
  | nil =>
      rw [List.nil_append, spanUntil] at spans
      split at spans
      · rename_i stops
        rw [Bool.and_eq_true] at stops
        exact ⟨stops.1, fun following => by simp [spanUntil, stops]⟩
      · simp at spans
  | cons d text ih =>
      rw [List.cons_append, spanUntil] at spans
      split at spans
      · simp at spans
      · rename_i goes
        obtain ⟨top, others⟩ := ih (List.cons.inj spans).2
        refine ⟨top, fun following => ?_⟩
        rw [List.cons_append, spanUntil, if_neg goes, others]

theorem IsCondition.spans {text : Text} (accepted : IsCondition text)
    (following : Text) :
    Nesting.spanUntil ['{'].contains {} (text ++ '{' :: following) = text :=
  (Nesting.spanUntil_stop accepted).2 following

theorem IsCondition.closed {text : Text} (accepted : IsCondition text) :
    (Nesting.after {} text).checkClosed = .ok () := by
  have top := (Nesting.spanUntil_stop accepted).1
  simp only [Nesting.isTop, Bool.and_eq_true, beq_iff_eq] at top
  simp [Nesting.checkClosed, top]

/-- Whether a condition holds, with the uses of variables that finding out
takes. -/
def ask (environment : Environment) (condition : Text) :
    EStateM Error Scopes Bool :=
  consult do
    Compile.evaluateCondition
      (← Compile.resolveValue environment condition.trim)

section Asking

open Compile

variable (environment : Environment) (condition : Text)

theorem resolved_asking : Always Compile.Resolved
    (do
      evaluateCondition (← resolveValue environment condition.trim) :
      Compile Bool) :=
  (resolved_resolveValue environment _).bind fun text =>
    resolved_evaluateCondition text

private theorem consulted_ask :
    Always Scopes.Consulted (ask environment condition) :=
  consulted_consult (resolved_asking environment condition)

variable {environment condition}

private theorem asking_of_ask {state : State} {holds : Bool} {scopes : Scopes}
    (asked : ask environment condition state.scopes = .ok holds scopes) :
    ∃ log,
      (do
        evaluateCondition (← resolveValue environment condition.trim) :
        Compile Bool)
      state = .ok holds (state.noting scopes log) :=
  of_consult
    ((steady_resolveValue sharesScopes_scopes environment condition.trim).after
    fun text => steady_evaluateCondition text)
      (resolved_asking environment condition) asked

private theorem asking_of_error {state : State} {error : Error}
    {scopes : Scopes}
    (failed : ask environment condition state.scopes = .error error scopes) :
    ∃ final,
      (do
        evaluateCondition (← resolveValue environment condition.trim) :
        Compile Bool)
      state = .error error final :=
  error_of_consult
    ((steady_resolveValue sharesScopes_scopes environment condition.trim).after
    fun text => steady_evaluateCondition text) failed

end Asking

/-- `condition { body }` -/
structure Branch where
  condition : Text
  body : Text
  accepted : IsCondition condition
  balanced : Balanced body

def Branch.text (branch : Branch) : Text :=
  branch.condition ++ '{' :: (branch.body ++ ['}'])

theorem Branch.length_text (branch : Branch) :
    branch.text.length =
      branch.condition.length + (1 + branch.body.length + 1) := by
  simp [text]
  omega

/-- An `@else` with the white space on both sides of it. -/
structure Joint where
  lead : Text
  gap : Text
  leadSpace : ∀ c ∈ lead, isSpace c = true
  gapSpace : ∀ c ∈ gap, isSpace c = true

def Joint.text (joint : Joint) : Text :=
  joint.lead ++ ("@else".toList ++ joint.gap)

theorem Joint.apart (joint : Joint) {rest : Text}
    (stops : joint.gap = [] → ∀ c, rest.head? = some c → isNameChar c = false) :
    ∀ c, (joint.gap ++ rest).head? = some c → isNameChar c = false := by
  intro c first
  cases gap : joint.gap with
  | nil =>
      rw [gap] at first
      exact stops gap c first
  | cons d others =>
      rw [gap] at first
      obtain rfl : d = c := by simpa using first
      exact not_name_of_isSpace (joint.gapSpace d (by simp [gap]))

/-- `@else if condition { body }` -/
structure ElseIf extends Branch, Joint where
  apart : gap ≠ []
  whole : ∀ c, condition.head? = some c → isNameChar c = false

def ElseIf.text (clause : ElseIf) : Text :=
  clause.toJoint.text ++ ("if".toList ++ clause.toBranch.text)

/-- `@else { body }` -/
structure Else extends Joint where
  body : Text
  balanced : Balanced body

def Else.text (clause : Else) : Text :=
  clause.toJoint.text ++ '{' :: (clause.body ++ ['}'])

/-- `@if condition { body } @else if condition { body } … @else  { body
}`; `gap` is the white space before the first condition. -/
structure Chain extends Branch where
  gap : Text
  space : ∀ c ∈ gap, isSpace c = true
  apart : ∀ c, (gap ++ condition).head? = some c → isNameChar c = false
  visible : ∀ c, condition.head? = some c → isSpace c = false
  others : List ElseIf
  last : Option Else

/-- The `@else` branches of a chain. -/
def elseText (others : List ElseIf) (last : Option Else) : Text :=
  others.flatMap ElseIf.text ++ (last.map Else.text).getD []

/-- The body of the first branch whose condition holds, or the last resort. -/
def choose (environment : Environment) : List Branch → (last : Option Text) →
    EStateM Error Scopes (Option Text)
  | [], last => pure last
  | branch :: others, last => do
      if ← ask environment branch.condition then return some branch.body
      else choose environment others last

private theorem consulted_choose (environment : Environment)
    (branches : List Branch) (last : Option Text) :
    Always Scopes.Consulted (choose environment branches last) := by
  induction branches with
  | nil => exact .pure _
  | cons branch others ih =>
      refine (consulted_ask environment branch.condition).bind fun holds => ?_
      split
      · exact .pure _
      · exact ih

namespace Chain

def text (chain : Chain) : Text :=
  "@if".toList ++
    (chain.gap ++ (chain.toBranch.text ++ elseText chain.others chain.last))

/-- The chain up to the end of its first branch. -/
def opening (chain : Chain) : Text :=
  "@if".toList ++ (chain.gap ++ chain.toBranch.text)

theorem text_eq (chain : Chain) :
    chain.text = chain.opening ++ elseText chain.others chain.last := by
  simp [text, opening]

/-- The branches that have conditions. -/
def branches (chain : Chain) : List Branch :=
  chain.toBranch :: chain.others.map ElseIf.toBranch

/-- The body for the case that no condition holds. -/
def lastBody (chain : Chain) : Option Text :=
  chain.last.map Else.body

end Chain

/-- The white space that is passed over in search of a further branch. -/
def skipped (last : Option Else) (rest : Text) : Text :=
  match last with
  | some _ => []
  | none => rest.takeWhile isSpace

/-- What is left behind the branches. -/
def leftOver (last : Option Else) (rest : Text) : Text :=
  match last with
  | some _ => rest
  | none => rest.dropWhile isSpace

theorem skipped_append_leftOver (last : Option Else) (rest : Text) :
    skipped last rest ++ leftOver last rest = rest := by
  cases last with
  | some clause => rfl
  | none => exact List.takeWhile_append_dropWhile

/-- The text behind a chain is not taken for one more branch. -/
def Ends (last : Option Else) (rest : Text) : Prop :=
  last = none → ¬ "@else".toList <+: rest.dropWhile isSpace

private theorem skipped_congr {last final : Option Else}
    (same : last.isSome = final.isSome) (rest : Text) :
    skipped last rest = skipped final rest := by
  cases last with
  | none =>
      cases final with
      | none => rfl
      | some clause => simp at same
  | some clause =>
      cases final with
      | none => simp at same
      | some clause => rfl

theorem Ends.congr {last final : Option Else} {rest : Text}
    (ends : Ends last rest) (same : last.isSome = final.isSome) :
    Ends final rest := by
  intro none
  rw [none] at same
  exact ends (by simpa using same)

/-- The text that is read for a chosen body: nothing, if the body is blank. -/
def inserted : Option Text → Text
  | none => []
  | some body => if body.trim.isEmpty then [] else body

namespace Compile

open State

variable {environment : Environment} {state : State} {rest : Text}
  {scopes : Scopes}

/-- A branch that is asked for. -/
theorem branch_asked {clause : Branch} {holds : Bool}
    (here : state.At (clause.text ++ rest))
    (asked : ask environment clause.condition state.scopes = .ok holds scopes) :
    ∃ (source : Source) (log : Log), source.text = clause.body ∧
      branch environment true state = .ok (if holds then some source else none)
        ((state.pass clause.text.length).noting scopes log) := by
  rw [Branch.text, List.append_assoc, List.cons_append, List.append_assoc]
    at here
  have read :=
    reading_readUntil here (clause.accepted.spans _) clause.accepted.closed
  obtain ⟨log, answered⟩ :=
    @asking_of_ask environment _ (state.pass clause.condition.length) _ _ asked
  obtain ⟨value, middle, resolved, evaluated⟩ := bind_ok answered
  obtain ⟨source, text, passed⟩ := branchBody_at (here.pass.noting scopes log)
    (clause.balanced.group rest)
  have standing := here.pass.isAt
  refine ⟨source, log, text, ?_⟩
  simp only [branch, bind_apply, read, get_apply, standing, Bool.not_true,
    Bool.false_eq_true, if_false, if_true, resolved, evaluated, passed,
    pure_apply, pass_noting, State.pass_pass, clause.length_text]

/-- A branch with a condition that cannot be evaluated. -/
theorem branch_refused {clause : Branch} {error : Error}
    (here : state.At (clause.text ++ rest))
    (failed : ask environment clause.condition state.scopes =
      .error error scopes) :
    ∃ final, branch environment true state = .error error final := by
  rw [Branch.text, List.append_assoc, List.cons_append, List.append_assoc]
    at here
  have read :=
    reading_readUntil here (clause.accepted.spans _) clause.accepted.closed
  have standing := here.pass.isAt
  obtain ⟨final, refused⟩ :=
    @asking_of_error environment _ (state.pass clause.condition.length) _ _
    failed
  simp only [branch, bind_apply, read, get_apply, standing, Bool.not_true,
    Bool.false_eq_true, if_false, if_true]
  rw [bind_apply] at refused
  cases resolved : resolveValue environment clause.condition.trim
      (state.pass clause.condition.length) with
  | ok value middle =>
      rw [resolved] at refused
      exact ⟨final, by simp only [refused]⟩
  | error fault middle =>
      rw [resolved] at refused
      exact ⟨final, by simpa using refused⟩

/-- A branch after the chosen one. -/
theorem branch_unasked {clause : Branch}
    (here : state.At (clause.text ++ rest)) :
    branch environment false state =
      .ok none (state.pass clause.text.length) := by
  rw [clause.length_text]
  rw [Branch.text, List.append_assoc, List.cons_append, List.append_assoc]
    at here
  exact branch_passed here (clause.accepted.spans _) clause.accepted.closed
    (clause.balanced.group rest)

/-- An `@else` is passed over with the white space around it. -/
theorem elseBranches_joint {fuel : Nat} {chosen : Option Source} {joint : Joint}
    (here : state.At (joint.text ++ rest))
    (apart : ∀ c, (joint.gap ++ rest).head? = some c → isNameChar c = false)
    (visible : ∀ c, rest.head? = some c → isSpace c = false) :
    elseBranches environment (fuel + 1) chosen state =
      (do
        if ← reading (Reader.skipWord? "if".toList) then
          let body ← branch environment chosen.isNone
          elseBranches environment fuel (chosen.or body)
        else
          let body ← branchBody
          return chosen.or (some body) : Compile (Option Source))
        (state.pass joint.text.length) := by
  rw [Joint.text, List.append_assoc, List.append_assoc] at here
  have led := reading_skipSpace here joint.leadSpace (by simp [isSpace])
  have word := reading_skipWord here.pass apart
  have space := reading_skipSpace here.pass.pass joint.gapSpace visible
  simp only [elseBranches, bind_apply, led, word, if_true, space]
  simp only [State.pass_pass, Joint.text, List.length_append, Nat.add_assoc]

/-- What is chosen once the branches before `others` have left `chosen`. -/
def chooseAfter (environment : Environment) (chosen : Option Source)
    (others : List ElseIf) (last : Option Else) :
    EStateM Error Scopes (Option Text) :=
  match chosen with
  | some source => pure (some source.text)
  | none => choose environment (others.map ElseIf.toBranch) (last.map Else.body)

theorem elseBranches_last {fuel : Nat} {chosen : Option Source}
    {last : Option Else} {text : Option Text}
    (here : state.At (elseText [] last ++ rest)) (ends : Ends last rest)
    (picked : chooseAfter environment chosen [] last state.scopes =
      .ok text scopes) :
    ∃ result, result.map Source.text = text ∧ scopes = state.scopes ∧
      elseBranches environment (fuel + 1) chosen state =
        .ok result
          (state.pass
            ((elseText [] last).length + (skipped last rest).length)) := by
  cases last with
  | none =>
      obtain ⟨same, rfl⟩ : chosen.map Source.text = text ∧
          state.scopes = scopes := by
        cases chosen with
        | none => simpa [chooseAfter, choose] using picked
        | some source => simpa [chooseAfter] using picked
      have whole :
          state.At (rest.takeWhile isSpace ++ rest.dropWhile isSpace) := by
        rw [List.takeWhile_append_dropWhile]
        exact here
      have done := @elseBranches_done state _ environment fuel chosen _ whole
        (fun c member => List.mem_takeWhile_imp member)
          (visible_dropWhile rest) (ends rfl)
      refine ⟨chosen, same, rfl, ?_⟩
      rw [done]
      simp [elseText, skipped]
  | some clause =>
      obtain ⟨same, rfl⟩ :
          ((chosen.map Source.text).or (some clause.body)) = text ∧
          state.scopes = scopes := by
        cases chosen with
        | none => simpa [chooseAfter, choose] using picked
        | some source => simpa [chooseAfter] using picked
      have standing :
          state.At
            (clause.toJoint.text ++ ('{' :: (clause.body ++ '}' :: rest))) := by
        simpa [elseText, Else.text] using here
      have braced :=
        @Joint.apart clause.toJoint ('{' :: (clause.body ++ '}' :: rest))
        fun _ => by simp [isNameChar]
      obtain ⟨source, body, passed⟩ :=
        branchBody_at standing.pass (clause.balanced.group rest)
      have noIf := @reading_noWord _ _ "if".toList standing.pass (by simp)
      refine ⟨chosen.or (some source), ?_, rfl, ?_⟩
      · rw [← same, ← body]
        cases chosen with
        | none => rfl
        | some source => rfl
      · rw [elseBranches_joint standing braced (by simp [isSpace])]
        simp only [bind_apply, noIf, Bool.false_eq_true, if_false,
          passed, pure_apply, State.pass_pass]
        simp only [elseText, Else.text, skipped, List.flatMap_nil,
          List.nil_append, Option.map_some, Option.getD_some,
          List.length_append, List.length_cons, List.length_nil]
        congr 2
        omega

theorem head_of_condition {kind : Char → Bool} (clause : Branch) {rest : Text}
    (brace : kind '{' = false)
    (first : ∀ c, clause.condition.head? = some c → kind c = false) :
    ∀ c, (clause.text ++ rest).head? = some c → kind c = false := by
  intro c starts
  cases condition : clause.condition with
  | nil =>
      obtain rfl : '{' = c := by simpa [Branch.text, condition] using starts
      exact brace
  | cons d others =>
      obtain rfl : d = c := by simpa [Branch.text, condition] using starts
      exact first d (by simp [condition])

/-- The words `@else if` are passed over up to the condition. -/
theorem elseBranches_words {fuel : Nat} {chosen : Option Source}
    {clause : ElseIf} (here : state.At (clause.text ++ rest)) :
    ∃ count, (state.pass count).At (clause.toBranch.text ++ rest) ∧
      clause.text.length = count + clause.toBranch.text.length ∧
      elseBranches environment (fuel + 1) chosen state =
        (do
          let body ← branch environment chosen.isNone
          elseBranches environment fuel (chosen.or body) :
            Compile (Option Source))
          (state.pass count) := by
  simp only [ElseIf.text, List.append_assoc] at here
  have apart :=
    @Joint.apart clause.toJoint ("if".toList ++ (clause.toBranch.text ++ rest))
    fun none => absurd none clause.apart
  have word := reading_skipWord here.pass
    (head_of_condition clause.toBranch (by decide) clause.whole)
  have standing := here.pass.pass
  rw [State.pass_pass] at standing
  refine ⟨_, standing,
    by simp only [ElseIf.text, List.length_append, Nat.add_assoc], ?_⟩
  rw [elseBranches_joint here apart (by simp [isSpace])]
  simp only [bind_apply, word, if_true]
  simp only [State.pass_pass]

/-- The `@else` branches of a chain, after branches that have left `chosen`. -/
theorem elseBranches_at {others : List ElseIf} {last : Option Else} {fuel : Nat}
    {chosen : Option Source} {text : Option Text}
    (enough : others.length < fuel)
    (here : state.At (elseText others last ++ rest)) (ends : Ends last rest)
    (picked : chooseAfter environment chosen others last state.scopes =
      .ok text scopes) :
    ∃ result log, result.map Source.text = text ∧
      elseBranches environment fuel chosen state = .ok result
        ((state.pass
          ((elseText others last).length + (skipped last rest).length)).noting
          scopes log) := by
  induction others generalizing fuel state chosen with
  | nil =>
      obtain ⟨fuel, rfl⟩ : ∃ less, fuel = less + 1 := ⟨fuel - 1, by omega⟩
      obtain ⟨result, same, rfl, done⟩ :=
        @elseBranches_last _ _ _ _ fuel _ _ _ here ends picked
      exact ⟨result, state.log, same, done⟩
  | cons clause others ih =>
      obtain ⟨fuel, rfl⟩ : ∃ less, fuel = less + 1 := ⟨fuel - 1, by omega⟩
      have split : elseText (clause :: others) last =
          clause.text ++ elseText others last := by
        simp [elseText]
      rw [split, List.append_assoc] at here
      obtain ⟨count, standing, length, began⟩ :=
        @elseBranches_words environment _ _ fuel chosen _ here
      have total : ∀ tail, count + (clause.toBranch.text.length + tail) =
          clause.text.length + tail := fun tail => by rw [length, Nat.add_assoc]
      rw [began, split, List.length_append, Nat.add_assoc, ← total]
      cases chosen with
      | some source =>
          have passed := @branch_unasked environment _ _ _ standing
          obtain ⟨result, log, same, done⟩ :=
            @ih _ _ (some source) (by simpa using enough) standing.pass picked
          refine ⟨result, log, same, ?_⟩
          simp only [State.pass_pass, Nat.add_assoc] at done passed
          simp only [bind_apply, Option.isNone_some, passed,
            Option.or_none, done]
      | none =>
          obtain ⟨holds, after, asked, chosen⟩ := bind_ok picked
          obtain ⟨source, log, body, answered⟩ := branch_asked standing asked
          have goes : chooseAfter environment
              (if holds then some source else none) others last
              after = .ok text scopes := by
            cases holds with
            | true => simpa [chooseAfter, body] using chosen
            | false => simpa [chooseAfter] using chosen
          obtain ⟨result, later, same, done⟩ := ih (by simpa using enough)
            (standing.pass.noting after log) goes
          refine ⟨result, later, same, ?_⟩
          simp only [State.pass_pass, pass_noting, noting_noting, Nat.add_assoc]
            at done answered
          simp only [bind_apply, Option.isNone_none, answered,
            Option.none_or, done]

private theorem length_le_elseText (others : List ElseIf) (last : Option Else) :
    others.length ≤ (elseText others last).length := by
  induction others with
  | nil => exact Nat.zero_le _
  | cons clause others ih =>
      have some : 1 ≤ clause.text.length := by simp [ElseIf.text]; omega
      have split : elseText (clause :: others) last =
          clause.text ++ elseText others last := by
        simp [elseText]
      rw [split, List.length_append, List.length_cons]
      omega

/-- What is left of a chain at the end is the body to splice in. -/
theorem conditionDirective_at {chain : Chain} {chosen : Option Text}
    (here : state.At
      (chain.toBranch.text ++ (elseText chain.others chain.last ++ rest)))
    (ends : Ends chain.last rest)
    (choice : choose environment chain.branches chain.lastBody state.scopes =
      .ok chosen scopes) :
    ∃ source log, source.map Source.text = chosen ∧
      conditionDirective environment state =
      spliceChosen source ((state.pass (chain.toBranch.text.length +
        ((elseText chain.others chain.last).length +
          (skipped chain.last rest).length))).noting scopes log) := by
  obtain ⟨holds, after, asked, picked⟩ := bind_ok choice
  obtain ⟨first, log, body, answered⟩ := branch_asked here asked
  have goes : chooseAfter environment (if holds then some first else none)
      chain.others chain.last after = .ok chosen scopes := by
    cases holds with
    | true => simpa [chooseAfter, body] using picked
    | false => exact picked
  have standing := here.pass.noting after log
  obtain ⟨source, later, text, done⟩ := @elseBranches_at _ _ _ _ _ _
    (((state.pass chain.toBranch.text.length).noting after
      log).cursor.pending.length + 1) _ _ (by
      rw [standing.pending, List.length_append]
      exact Nat.lt_succ_of_le (Nat.le_add_right_of_le (length_le_elseText ..)))
    standing ends goes
  refine ⟨source, later, text, ?_⟩
  simp only [pass_noting, noting_noting, State.pass_pass] at done
  simp only [conditionDirective_eq, bind_apply, answered, get_apply, done]

/-- The word in front of a chain is passed over. -/
theorem step_if {chain : Chain} (here : state.At (chain.text ++ rest)) :
    ∃ count, (state.pass count).At
        (chain.toBranch.text ++ (elseText chain.others chain.last ++ rest)) ∧
      count + chain.toBranch.text.length +
        (elseText chain.others chain.last).length =
        chain.text.length ∧
      step environment state =
        (do conditionDirective environment; return true : Compile Bool)
          (state.pass count) := by
  simp only [Chain.text, List.append_assoc] at here
  have visible := @head_of_condition isSpace chain.toBranch
    (elseText chain.others chain.last ++ rest) (by decide) chain.visible
  have apart : ∀ c,
      (chain.gap ++ (chain.toBranch.text ++ (elseText chain.others chain.last ++
      rest))).head? = some c → isNameChar c = false := by
    intro c first
    have noName := chain.apart
    cases gap : chain.gap with
    | nil =>
        rw [gap] at first noName
        exact head_of_condition chain.toBranch (by decide) noName c first
    | cons d others =>
        rw [gap] at first noName
        exact noName c first
  have dispatched :=
    @directive_if _ _ environment _ here chain.space apart visible
  have standing := here.pass.pass
  rw [State.pass_pass] at standing
  refine ⟨_, standing,
    by simp only [Chain.text, List.length_append, Nat.add_assoc], ?_⟩
  have opening :
      state.At ('@' :: ("if".toList ++ (chain.gap ++ (chain.toBranch.text ++
      (elseText chain.others chain.last ++ rest))))) := here
  rw [step_directive opening, bind_apply, dispatched]
  rfl

/-- The statement is read up to the end of its branches. -/
theorem step_chain {chain : Chain} {chosen : Option Text}
    (here : state.At (chain.text ++ rest)) (ends : Ends chain.last rest)
    (choice : choose environment chain.branches chain.lastBody state.scopes =
      .ok chosen scopes) :
    ∃ source log, source.map Source.text = chosen ∧ step environment state =
      (do spliceChosen source; return true : Compile Bool)
        ((state.pass
          (chain.text.length + (skipped chain.last rest).length)).noting
          scopes log) := by
  obtain ⟨count, standing, length, stepped⟩ := @step_if environment _ _ _ here
  obtain ⟨source, log, text, done⟩ := conditionDirective_at standing ends choice
  refine ⟨source, log, text, ?_⟩
  rw [State.pass_pass, ← Nat.add_assoc, ← Nat.add_assoc, length] at done
  rw [stepped, bind_apply, done]
  rfl

end Compile

/-- Only uses of variables have been counted, and `text` is to be read next. -/
structure Chose (before after : State) (text : Text)
    (counted : Scopes) : Prop where
  here : after.At text
  scopes : after.scopes = counted
  consulted : before.scopes.Consulted counted
  sheet : after.sheet = before.sheet
  mixins : after.mixins = before.mixins
  blocks : after.blocks = before.blocks
  dependencies : after.dependencies = before.dependencies

/-- Branches that differ in bodies that are not chosen and in conditions that
are not asked for. -/
inductive Rivals (environment : Environment) : Scopes →
    List Branch → Option Text →
    List Branch → Option Text → Prop where
  | chosen {scopes after : Scopes} {branch : Branch}
      {others further : List Branch} {last final : Option Text}
        (holds : ask environment branch.condition scopes = .ok true after)
      (closing : last.isSome = final.isSome) :
      Rivals environment scopes (branch :: others) last
        (branch :: further) final
  | passed {scopes after : Scopes} {branch rival : Branch}
      {others further : List Branch}
      {last final : Option Text} (same : rival.condition = branch.condition)
      (fails : ask environment branch.condition scopes = .ok false after)
      (later : Rivals environment after others last further final) :
      Rivals environment scopes (branch :: others) last (rival :: further) final
  | closing {scopes : Scopes} {last : Option Text} :
      Rivals environment scopes [] last [] last

namespace Rivals

variable {environment : Environment} {scopes : Scopes}
  {branches others : List Branch} {last final : Option Text}

theorem isSome (rivals : Rivals environment scopes branches last others final) :
    last.isSome = final.isSome := by
  induction rivals with
  | chosen holds closing => exact closing
  | passed same fails later ih => exact ih
  | closing => rfl

/-- The same body is chosen from both. -/
theorem choose (rivals : Rivals environment scopes branches last others final) :
    ∃ chosen after, Stylesheet.choose environment branches last scopes =
      .ok chosen after ∧
      Stylesheet.choose environment others final scopes = .ok chosen after := by
  induction rivals with
  | @chosen scopes after branch others further last final holds closing =>
      exact ⟨some branch.body, after, by simp [Stylesheet.choose, holds],
        by simp [Stylesheet.choose, holds]⟩
  | @passed scopes after branch rival others further last final same
        fails later ih =>
      obtain ⟨chosen, final, first, second⟩ := ih
      refine ⟨chosen, final, ?_, ?_⟩
      · simpa [Stylesheet.choose, fails] using first
      · simpa [Stylesheet.choose, same, fails] using second
  | @closing scopes last => exact ⟨last, scopes, rfl, rfl⟩

end Rivals

namespace Compile

theorem spliceChosen_blank {source : Option Source}
    (blank : inserted (source.map Source.text) = []) :
    spliceChosen source = pure () := by
  cases source with
  | none => rfl
  | some body =>
      simp only [Option.map_some, inserted] at blank
      by_cases empty : body.text.trim.isEmpty = true
      · exact if_pos empty
      · rw [if_neg empty] at blank
        rw [blank] at empty
        exact absurd rfl empty

theorem spliceChosen_filled {source : Option Source}
    (filled : inserted (source.map Source.text) ≠ []) :
    ∃ body, inserted (source.map Source.text) = body.text ∧
      spliceChosen source = splice body := by
  cases source with
  | none => exact absurd rfl filled
  | some body =>
      simp only [Option.map_some, inserted] at filled ⊢
      by_cases blank : body.text.trim.isEmpty = true
      · rw [if_pos blank] at filled
        exact absurd rfl filled
      · exact ⟨body, if_neg blank, if_neg blank⟩

theorem spliceChosen_fits {source : Option Source} {state : State} {rest : Text}
    (here : state.At rest) (fits : inserted (source.map Source.text) = [] ∨
      state.cursor.below.length + 1 < Cursor.maxSources) :
    ∃ cursor, spliceChosen source state = .ok ⟨⟩ { state with cursor } ∧
      State.At { state with cursor }
        (inserted (source.map Source.text) ++ rest) := by
  by_cases blank : inserted (source.map Source.text) = []
  · rw [spliceChosen_blank blank, blank]
    exact ⟨state.cursor, rfl, here⟩
  · obtain ⟨body, text, spliced⟩ := spliceChosen_filled blank
    obtain ⟨cursor, done, -⟩ := @splice_room state body
      (by simpa [Cursor.layers] using fits.resolve_left blank)
    rw [spliced, text]
    exact ⟨cursor, done, (at_splice done here).1⟩

theorem spliceChosen_full {source : Option Source} {state : State}
    (filled : inserted (source.map Source.text) ≠ [])
    (full : Cursor.maxSources ≤ state.cursor.below.length + 1) :
    spliceChosen source state = .error (.endless .expansion) state := by
  obtain ⟨body, -, spliced⟩ := spliceChosen_filled filled
  rw [spliced, splice_full full]

theorem SameText.of_map {chosen shown : Option Source}
    (same : chosen.map Source.text = shown.map Source.text) :
    SameText chosen shown := by
  cases chosen with
  | none =>
      obtain rfl := Option.map_eq_none_iff.mp same.symm
      exact .none
  | some source =>
      obtain ⟨other, rfl, text⟩ := Option.map_eq_some_iff.mp same.symm
      exact .some text.symm

end Compile

/-- One branch of a chain takes effect: its body is read in place of the chain.
What stands in the other bodies and in later conditions makes no difference to
the run. -/
theorem one_branch_taken (environment : Environment) (chain : Chain)
    (rest : Text) (state : State) (here : state.At (chain.text ++ rest))
    (ends : Ends chain.last rest) :
    (∀ chosen scopes,
      choose environment chain.branches chain.lastBody state.scopes =
        .ok chosen scopes →
      let passed :=
        state.pass (chain.text.length + (skipped chain.last rest).length)
      (inserted chosen = [] ∨
        passed.cursor.below.length + 1 < Cursor.maxSources →
        ∃ after, Compile.step environment state = .ok true after ∧
          Chose state after (inserted chosen ++ leftOver chain.last rest)
            scopes) ∧
      (inserted chosen ≠ [] →
        Cursor.maxSources ≤ passed.cursor.below.length + 1 →
        ∃ after,
          Compile.step environment state = .error (.endless .expansion) after ∧
          Chose state after (leftOver chain.last rest) scopes)) ∧
    ∀ (rival : Chain) (other : State),
      Rivals environment state.scopes chain.branches chain.lastBody
        rival.branches rival.lastBody →
      other.At (rival.text ++ rest) →
      (state.pass chain.text.length).Alike (other.pass rival.text.length) →
      ∀ fuel, EndsAlike (state.run environment (fuel + 1))
        (other.run environment (fuel + 1)) := by
  refine ⟨fun chosen scopes choice => ?_,
    fun rival other rivals standing alike fuel => ?_⟩
  · obtain ⟨source, log, rfl, stepped⟩ := Compile.step_chain here ends choice
    have consulted :=
      (consulted_choose environment chain.branches chain.lastBody).of_ok choice
    have passed :
        (state.pass (chain.text.length + (skipped chain.last rest).length)).At
        (leftOver chain.last rest) := by
      rw [← skipped_append_leftOver chain.last rest] at here
      rw [← State.pass_pass]
      exact here.pass.pass
    have standing := passed.noting scopes log
    refine ⟨fun fits => ?_, fun filled full => ?_⟩
    · obtain ⟨cursor, done, there⟩ := Compile.spliceChosen_fits standing fits
      refine ⟨_, ?_, there, rfl, consulted, rfl, rfl, rfl, rfl⟩
      rw [stepped, bind_apply, done]
      rfl
    · have refused :=
        @Compile.spliceChosen_full _ ((state.pass (chain.text.length +
        (skipped chain.last rest).length)).noting scopes log) filled full
      refine ⟨_, ?_, standing, rfl, consulted, rfl, rfl, rfl, rfl⟩
      rw [stepped, bind_apply, refused]
  · obtain ⟨chosen, scopes, first, second⟩ := rivals.choose
    have closing : chain.last.isSome = rival.last.isSome := by
      simpa [Chain.lastBody] using rivals.isSome
    obtain ⟨source, log, text, stepped⟩ := Compile.step_chain here ends first
    obtain ⟨shown, record, shownText, shownStepped⟩ :=
      Compile.step_chain standing (ends.congr closing) (alike.scopes ▸ second)
    rw [← skipped_congr closing] at shownStepped
    have parallel : Parallel State.Alike Eq
        (do Compile.spliceChosen source; return true : Compile Bool)
        (do Compile.spliceChosen shown; return true : Compile Bool) :=
      (Compile.parallel_spliceChosen (.of_map (text.trans shownText.symm))).bind
        fun _ _ _ => .pure rfl
    have further :
        (state.pass
          (chain.text.length + (skipped chain.last rest).length)).Alike
        (other.pass
          (rival.text.length + (skipped chain.last rest).length)) := by
      rw [← State.pass_pass, ← State.pass_pass]
      exact { alike with cursor := alike.cursor.advanceBy _ }
    have taken :=
      parallel _ _ (State.shares_alike.resolved further scopes log record)
    refine endsAlike_of_step ?_ fun next => next.run environment fuel
    rw [stepped, shownStepped]
    exact taken

namespace Sample

/-- `@if false { … } @else if $on { width: 1px; }@else if … { …  } @else { …
}` -/
def chain (first condition later closing : Text)
    (fits : IsCondition (' ' :: condition) ∧ Balanced first ∧ Balanced later ∧
      Balanced closing) :
    Chain where
  condition := "false ".toList
  body := first
  accepted := by decide
  balanced := fits.2.1
  gap := [' ']
  space := by decide
  apart := by decide
  visible := by decide
  others :=
    [{ condition := " $on ".toList
       body := "width: 1px;".toList
       accepted := by decide
       balanced := by decide
       lead := [' ']
       gap := [' ']
       leadSpace := by decide
       gapSpace := by decide
       apart := by decide
       whole := by decide },
     { condition := ' ' :: condition
       body := later
       accepted := fits.1
       balanced := fits.2.2.1
       lead := []
       gap := [' ']
       leadSpace := by decide
       gapSpace := by decide
       apart := by decide
       whole := by simp [isNameChar] }]
  last := some
    { lead := ['\n']
      gap := []
      leadSpace := by decide
      gapSpace := by decide
      body := closing
      balanced := fits.2.2.2 }

def left : Chain :=
  chain "color: red;".toList "x".toList "y \x7b \x7d".toList [] (by decide)

def right : Chain :=
  chain "'\x7d' \x7b \x7d $z".toList "1 / 0".toList "z".toList
    "@else".toList (by decide)

/-- The state at a text in a block, with a variable. -/
def state (text : Text) : State where
  scopes := ({} : Scopes).bind { name := "on".toList, value := "true".toList }
  cursor := (Cursor.ofText text none).advance
  blocks := [{ selectors := [".a".toList] }]

theorem state_at (text : Text) : (state text).At text :=
  State.at_start rfl

/-- The variables after the second condition. -/
def counted : Scopes :=
  ({} : Scopes).bind { name := "on".toList, value := "true".toList, uses := 1 }

theorem rivals :
    Rivals {} (state []).scopes left.branches left.lastBody right.branches
    right.lastBody :=
  @Rivals.passed _ _ (state []).scopes _ _ _ _ _ _ rfl (by decide +kernel)
    (@Rivals.chosen _ _ counted _ _ _ _ _ (by decide +kernel) rfl)

theorem choice : choose {} left.branches left.lastBody (state []).scopes =
    .ok (some "width: 1px;".toList) counted := by
  decide +kernel

theorem alike (first second rest : Text) :
    ((state (first ++ rest)).pass first.length).Alike
    ((state (second ++ rest)).pass second.length) where
  scopes := rfl
  sheet := rfl
  dependencies := rfl
  blocks := rfl
  mixins := .refl _
  cursor :=
    Cursor.alike_of_layers (state_at _).pass.ready (state_at _).pass.ready
    ((Cursor.layers_passed ..).trans (Cursor.layers_passed ..).symm)

end Sample

theorem one_branch_taken_sample :
    (∃ after, Compile.step {} (Sample.state (Sample.left.text ++ ['}'])) =
      .ok true after ∧
      Chose (Sample.state (Sample.left.text ++ ['}'])) after
        "width: 1px;\x7d".toList Sample.counted) ∧
    ∀ fuel,
      EndsAlike ((Sample.state (Sample.left.text ++ ['}'])).run {} (fuel + 1))
      ((Sample.state (Sample.right.text ++ ['}'])).run {} (fuel + 1)) := by
  obtain ⟨effect, runs⟩ :=
    one_branch_taken {} Sample.left ['}'] _ (Sample.state_at _)
    (fun none => by cases none)
  have single :=
    congrArg List.length (Cursor.layers_passed Sample.left.text ['}'] none)
  rw [Cursor.layers, List.length_cons, List.length_map, List.length_singleton]
    at single
  have skips :
      Sample.left.text.length + (skipped Sample.left.last ['}']).length =
      Sample.left.text.length := rfl
  refine ⟨(effect _ _ Sample.choice).1 (.inr ?_),
    runs Sample.right _ Sample.rivals (Sample.state_at _) (Sample.alike ..)⟩
  change (Cursor.advanceBy _ (_ + _)).below.length + 1 < _
  rw [skips]
  change
    (Cursor.advanceBy (Cursor.ofText _ none).advance _).below.length + 1 < _
  rw [single]
  decide

end Stylesheet
