import Stylesheet.Proofs.Reading
import Stylesheet.Proofs.TreeValues

/-!
# Compiling printed trees

Compiling the printed form of a tree gives what the tree evaluates to.  Each
statement of the tree is one step of the compiler, and a block is a step that
opens it, its statements, and a step that closes it.
-/

namespace Stylesheet

open Stylesheet.Tree

/-- No statement ends here. -/
def isSmooth (c : Char) : Bool :=
  isFlat c && c != ';'

theorem flat_of_smooth {c : Char} (smooth : isSmooth c = true) :
    isFlat c = true := by
  simp only [isSmooth, Bool.and_eq_true] at smooth
  exact smooth.1

theorem ne_of_smooth {c mark : Char} (smooth : isSmooth c = true)
    (rough : isSmooth mark = false) :
    c ≠ mark := by
  rintro rfl
  rw [smooth] at rough
  contradiction

theorem smooth_of_ordinary {c : Char} (ordinary : isOrdinary c = true) :
    isSmooth c = true := by
  have semicolon := @ne_of_ordinary c ';' ordinary (by decide)
  simp [isSmooth, flat_of_ordinary ordinary, semicolon]

/-- Text without the end of a statement. -/
def Smooth (text : Text) : Prop :=
  ∀ c ∈ text, isSmooth c = true

theorem Smooth.append {first second : Text} (left : Smooth first)
    (right : Smooth second) :
    Smooth (first ++ second) := by
  intro c member
  rcases List.mem_append.mp member with member | member
  · exact left c member
  · exact right c member

theorem Smooth.cons {c : Char} {text : Text} (head : isSmooth c = true)
    (tail : Smooth text) :
    Smooth (c :: text) :=
  List.forall_mem_cons.mpr ⟨head, tail⟩

theorem Tree.Spaces.smooth {gap : Text} (space : Spaces gap) : Smooth gap := by
  intro c member
  have standing := space c member
  simp only [isSpace, Bool.or_eq_true, beq_iff_eq] at standing
  rcases standing with ((((rfl | rfl) | rfl) | rfl) | rfl) | rfl <;> decide

theorem Tidy.smooth {text : Text} (tidy : Tidy isOrdinary text) :
    Smooth text := by
  intro c member
  rcases tidy.mem c member with ordinary | rfl
  · exact smooth_of_ordinary ordinary
  · decide

theorem Tree.Value.smooth {continues : Bool} (value : Tree.Value continues) :
    Smooth value.text := by
  intro c member
  rcases value.tidy.mem c member with source | rfl
  · simp only [isSourceChar, Bool.or_eq_true, beq_iff_eq] at source
    rcases source with ordinary | rfl
    · exact smooth_of_ordinary ordinary
    · decide
  · decide

theorem smooth_defaultMark {mark : Text} (space : Spaces mark)
    (isDefault : Bool) :
    Smooth (defaultMark mark isDefault) := by
  cases isDefault with
  | false => simp [defaultMark, Smooth]
  | true =>
      exact space.smooth.append
        (by decide : ∀ c ∈ "!default".toList, isSmooth c = true)

/-- The compiler has the variables and the output of an evaluation that started
with the sheet `start`, and a scope for every open block. -/
structure Follows (start : Sheet) (state : State)
    (evaluation : Evaluation) : Prop where
  scopes : Mirrors state.scopes evaluation.scopes
  sound : Sound evaluation.scopes
  sheet : state.sheet = evaluation.emitted.foldl
    (fun sheet emission =>
      sheet.addProperty emission.selectors emission.property) start
  depth : state.scopes.outer.length = state.blocks.length

namespace Follows

variable {start : Sheet} {state : State} {evaluation : Evaluation}
  {looked : Scopes} {cursor : Cursor} {log : Log}

/-- Moving on and looking variables up makes no difference. -/
theorem consult (follows : Follows start state evaluation)
    (consulted : state.scopes.Consulted looked) :
    Follows start { state with scopes := looked, cursor, log } evaluation where
  scopes := follows.scopes.consulted consulted
  sound := follows.sound
  sheet := follows.sheet
  depth := by
    rw [← follows.depth]
    exact congrArg List.length consulted.outer

theorem pass (follows : Follows start state evaluation) (count : Nat) :
    Follows start (state.pass count) evaluation :=
  follows.consult (Std.Refl.refl state.scopes)

theorem define (follows : Follows start state evaluation)
    (consulted : state.scopes.Consulted looked) (name : Text) {value : Text}
    (isDefault : Bool) (tidy : Tidy isOrdinary value) :
    Follows start { state with scopes := (looked.define name value isDefault).2,
                               cursor, log }
      { evaluation with
        scopes := Tree.define evaluation.scopes name value isDefault } where
  scopes := (follows.scopes.consulted consulted).define name value isDefault
  sound := follows.sound.define tidy name isDefault
  sheet := follows.sheet
  depth := by
    rw [← follows.depth, ← consulted.outer]
    exact congrArg List.length (looked.outer_define name value isDefault)

end Follows

/-- Work of the compiler ended as the work of the evaluator did: in front of
`rest` with the given blocks open, or with the same error. -/
def Performs {α : Type} (start : Sheet) (blocks : List Block) (rest : Text) :
    EStateM.Result Error State α → EStateM.Result Error Evaluation Unit → Prop
  | .ok _ next, .ok _ evaluation =>
      next.At rest ∧ next.blocks = blocks ∧ Follows start next evaluation
  | .error error last, .error expected evaluation =>
      error = expected ∧ Follows start last evaluation
  | _, _ => False

private theorem splitDefault_printed {continues : Bool}
    (value : Tree.Value continues) {before mark after : Text}
    (spaceBefore : Spaces before) (spaceMark : Spaces mark)
    (spaceAfter : Spaces after) (isDefault : Bool) :
    Compile.splitDefault
      (Text.trim
        (before ++ (value.text ++ defaultMark mark isDefault) ++ after)) =
      (value.text, isDefault) := by
  have visible : ∀ c, isSourceChar c = true → isBlank c = false := by
    intro c source
    simp only [isSourceChar, Bool.or_eq_true, beq_iff_eq] at source
    rcases source with ordinary | rfl
    · exact visible_of_ordinary ordinary
    · decide
  unfold Compile.splitDefault
  cases isDefault with
  | false =>
      rw [defaultMark, if_neg (by simp), List.append_nil,
        value.tidy.trim_around visible spaceBefore.blank spaceAfter.blank]
      cases found : "!default".toList.isSuffixOf? value.text with
      | none => rfl
      | some front =>
          have marked : '!' ∈ value.text := by
            rw [← List.isSuffixOf?_eq_some_iff_append_eq.mp found]
            simp
          exact absurd rfl (value.ne (by decide) (by decide) '!' marked)
  | true =>
      obtain ⟨first, others, starts, visibleFirst⟩ := value.tidy.head
      obtain ⟨lead, last, ends, visibleLast⟩ := value.tidy.last
      have trimmed :
          Text.trim
            (before ++ (value.text ++ (mark ++ "!default".toList)) ++ after) =
          value.text ++ (mark ++ "!default".toList) := by
        refine Text.trim_around spaceBefore.blank spaceAfter.blank ?_
          (visible _ visibleFirst) ?_ (by decide : isBlank 't' = false)
        · rw [starts]
          rfl
        · simp
      have found : "!default".toList.isSuffixOf?
          (value.text ++ (mark ++ "!default".toList)) =
          some (value.text ++ mark) := by
        rw [List.isSuffixOf?_eq_some_iff_append_eq, List.append_assoc]
      rw [defaultMark, if_pos rfl, trimmed, found]
      have ended :=
        @Text.trimEnd_append lead _ _ (visible _ visibleLast) spaceMark.blank
      rw [← ends] at ended
      exact congrArg (·, true) ended

namespace Compile

variable {environment : Environment} {state : State} {start : Sheet}
  {evaluation : Evaluation} {continues : Bool}

/-- Smooth text is read up to the character to stop at. -/
theorem reading_smooth {stops : List Char} {text rest : Text} {c : Char}
    (here : state.At (text ++ c :: rest)) (smooth : Smooth text)
    (rough : ∀ d ∈ stops, isSmooth d = false)
    (plain : isQuote c = false ∧ c ≠ '(' ∧ c ≠ ')')
    (stop : stops.contains c = true)
    (noHole : c = '{' → (Nesting.after {} text).afterHash = false) :
    reading (Reader.readUntil stops) state =
      .ok text (state.pass text.length) := by
  have flat : ∀ d ∈ text, isFlat d = true ∧ stops.contains d = false := by
    intro d member
    refine ⟨flat_of_smooth (smooth d member), ?_⟩
    rw [List.contains_eq_mem, decide_eq_false_iff_not]
    exact fun stopping => ne_of_smooth (smooth d member) (rough d stopping) rfl
  exact reading_readUntil here (Nesting.spanUntil_flat flat plain stop noHole)
    (Nesting.checkClosed_flat fun d member => (flat d member).1)

private theorem variableStatement_printed (name : VariableName)
    (value : Tree.Value continues) (isDefault : Bool)
    {before mark after rest : Text} (spaceBefore : Spaces before)
    (spaceMark : Spaces mark) (spaceAfter : Spaces after)
    (follows : Follows start state evaluation)
    (here : state.At ('$' :: (name.text ++ ':' ::
      (before ++ (value.text ++ defaultMark mark isDefault) ++ after ++
        ';' :: rest)))) :
    Performs start state.blocks rest (variableStatement environment state)
      (assign name value isDefault evaluation) := by
  have readName :=
    reading_readName here.passOne name.nameChars (by simp [isNameChar])
  have afterName := here.passOne.pass
  have skipped :=
    @reading_skipSpace _ [] _ afterName (by simp) (by simp [isSpace])
  have colon := reading_expect afterName
  have atRaw := afterName.passOne
  have smooth :
      Smooth (before ++ (value.text ++ defaultMark mark isDefault) ++ after) :=
    (spaceBefore.smooth.append
      (value.smooth.append (smooth_defaultMark spaceMark isDefault))).append
      spaceAfter.smooth
  have raw := @reading_smooth _ [';', '}'] _ _ _ atRaw smooth (by decide)
    (by decide) (by decide) (by simp)
  have atEnd := atRaw.pass
  have nonempty : name.text.isEmpty = false := by simpa using name.nonempty
  simp only [variableStatement, bind_apply, reading_advance, readName, nonempty,
    skipped, colon, raw, splitDefault_printed value spaceBefore spaceMark
      spaceAfter, List.length_nil, State.pass_zero,
    Bool.false_eq_true, if_false, get_apply, modify_apply]
  simp only [State.pass_pass] at atEnd ⊢
  generalize _ + List.length (_ ++ after) = count at atEnd ⊢
  obtain ⟨looked, consulted, resolved⟩ :=
    @resolveValue_printed _ (state.pass count) environment
    _ value [] [] (by simp [Spaces]) (by simp [Spaces])
      follows.scopes follows.sound
  rw [List.nil_append, List.append_nil] at resolved
  rw [resolved]
  cases evaluated : value.evaluate evaluation.scopes with
  | error error =>
      simp only [assign, bind_apply, get_apply, attempt, evaluated, throw_apply]
      exact ⟨rfl, follows.consult consulted⟩
  | ok text =>
      have tidy := value.evaluate_tidy follows.sound evaluated
      have unquoted := tidy.unquote_eq fun c => unquoted_of_ordinary
      simp only [assign, bind_apply, get_apply, attempt, evaluated, pure_apply,
        modify_apply, unquoted]
      have ended : ∀ log, Performs start state.blocks rest
          (reading (Reader.skipChar ';') { state.pass count with
            scopes := (looked.define name.text text isDefault).2, log })
          (.ok ⟨⟩ { evaluation with
            scopes := define evaluation.scopes name.text text isDefault }) := by
        intro log
        have atSemicolon : State.At { state.pass count with
            scopes := (looked.define name.text text isDefault).2,
              log } (';' :: rest) :=
          ⟨atEnd.ready, atEnd.pending⟩
        rw [reading_skipChar atSemicolon]
        exact ⟨atSemicolon.passOne, rfl,
          follows.define consulted name.text isDefault tidy⟩
      split
      · exact ended _
      · exact ended _

theorem addProperty_performs {selectors : List Text}
    {stem name value rest : Text} (follows : Follows start state evaluation)
    (here : state.At (';' :: rest)) :
    Performs start state.blocks rest
      ((do
        addProperty { selectors, stem } name value
        reading (Reader.skipChar ';')) state)
      (.ok ⟨⟩ { evaluation with emitted :=
        evaluation.emitted ++
          [{ selectors, property := { name := stem ++ name, value } }] }) := by
  obtain ⟨log, added⟩ := addProperty_ok { selectors, stem } name value state
  have atSemicolon : State.At { state with
      sheet :=
        state.sheet.addProperty selectors { name := stem ++ name, value }, log }
      (';' :: rest) :=
    ⟨here.ready, here.pending⟩
  rw [bind_apply, added]
  dsimp only
  rw [reading_skipChar atSemicolon]
  refine ⟨atSemicolon.passOne, rfl, follows.scopes, follows.sound, ?_,
    follows.depth⟩
  rw [List.foldl_append, ← follows.sheet]
  rfl

theorem splitDeclaration_printed (name : Name) (value : Text) :
    splitDeclaration? (name.text ++ ':' :: value) =
      some (name.text, value) := by
  have flat : ∀ c ∈ name.text, isFlat c = true ∧ (c == ':') = false := by
    intro c member
    have ordinary := ordinary_of_isNameChar (name.nameChars c member)
    have colon := @ne_of_ordinary c ':' ordinary (by decide)
    exact ⟨flat_of_ordinary ordinary, by simpa using colon⟩
  have spans :
      Nesting.spanUntil (· == ':') {} (name.text ++ ':' :: value) = name.text :=
    Nesting.spanUntil_flat flat (by decide) (by decide) (by simp)
  simp [splitDeclaration?, spans]

private theorem declaration_printed (name : Name) (value : Tree.Value continues)
    {selectors : List Text} {stem : Text} {outer : List Block}
    {before after rest : Text} (spaceBefore : Spaces before)
    (spaceAfter : Spaces after) (follows : Follows start state evaluation)
    (inside : state.blocks = { selectors, stem } :: outer)
    (here : state.At
      ((name.text ++ ':' :: (before ++ value.text ++ after)) ++ ';' :: rest)) :
    Performs start state.blocks rest (declaration environment state)
      (emit selectors (stem ++ name.text) value evaluation) := by
  have smooth : Smooth (name.text ++ ':' :: (before ++ value.text ++ after)) :=
    name.tidy.smooth.append (.cons (by decide)
      ((spaceBefore.smooth.append value.smooth).append spaceAfter.smooth))
  have raw := @reading_smooth _ [';', '}'] _ _ _ here smooth (by decide)
    (by decide) (by decide) (by simp)
  have atEnd := here.pass
  have trimmed : Text.trim name.text = name.text :=
    name.tidy.trim_eq fun _ => visible_of_ordinary
  have noHole : ∀ c ∈ name.text, c ≠ '{' := fun c member =>
    ne_of_ordinary (ordinary_of_isNameChar (name.nameChars c member))
      (by decide)
  have nonempty : name.text.isEmpty = false := by simpa using name.nonempty
  generalize List.length (_ ++ ':' :: _) = count at raw atEnd
  have reached : (state.pass count).blocks =
      { selectors, stem } :: outer := inside
  obtain ⟨looked, consulted, resolved⟩ :=
    @resolveValue_printed _ (state.pass count) environment
    _ value _ _ spaceBefore spaceAfter follows.scopes follows.sound
  simp only [declaration, bind_apply, raw, get_apply]
  rw [reached]
  simp only [bind_apply, splitDeclaration_printed, trimmed, nonempty, resolved,
    interpolate_plain environment noHole, Bool.false_eq_true, if_false]
  cases evaluated : value.evaluate evaluation.scopes with
  | error error =>
      simp only [emit, bind_apply, get_apply, attempt, evaluated, throw_apply]
      exact ⟨rfl, follows.consult consulted⟩
  | ok text =>
      have tidy := value.evaluate_tidy follows.sound evaluated
      have filled : text.isEmpty = false := by
        rw [List.isEmpty_eq_false_iff, ← List.length_pos_iff]
        exact tidy.length_pos
      simp only [emit, bind_apply, get_apply, attempt, evaluated, pure_apply,
        modify_apply, filled, Bool.false_eq_true, if_false]
      exact addProperty_performs (follows.consult consulted)
        ⟨atEnd.ready, atEnd.pending⟩

theorem ofText_smooth {text rest : Text} {c : Char} (smooth : Smooth text)
    (boundary : c = '{' ∨ c = ';')
    (noHole : c = '{' → (Nesting.after {} text).afterHash = false) :
    Boundary.ofText (text ++ c :: rest) = Boundary.ofChar? (some c) := by
  have flat : ∀ d ∈ text, isFlat d = true ∧ Boundary.isBoundary d = false := by
    intro d member
    have plain := smooth d member
    have opening := @ne_of_smooth d '{' plain (by decide)
    have semicolon := @ne_of_smooth d ';' plain (by decide)
    have closing := @ne_of_smooth d '}' plain (by decide)
    exact ⟨flat_of_smooth plain,
      by simp [Boundary.isBoundary, opening, semicolon, closing]⟩
  have spans :
      Nesting.spanUntil Boundary.isBoundary {} (text ++ c :: rest) = text := by
    rcases boundary with rfl | rfl
    · exact Nesting.spanUntil_flat flat (by decide) (by decide) noHole
    · exact Nesting.spanUntil_flat flat (by decide) (by decide) noHole
  simp [Boundary.ofText, spans]

theorem blockStatement_opens {head rest : Text} {block : Block}
    (smooth : Smooth head) (noHole : (Nesting.after {} head).afterHash = false)
    (follows : Follows start state evaluation)
    (here : state.At (head ++ '{' :: rest))
    (opens : ∀ count, blockOf environment head.trim (state.pass count) =
      .ok block (state.pass count)) :
    Performs start (block :: state.blocks) rest
      (blockStatement environment state)
      (.ok ⟨⟩ { evaluation with scopes := [] :: evaluation.scopes }) := by
  have read := @reading_smooth _ ['{'] _ _ _ here smooth (by decide)
    (by decide) (by decide) fun _ => noHole
  have brace := reading_expect here.pass
  simp only [blockStatement, bind_apply, read, opens, brace]
  refine ⟨⟨here.pass.passOne.ready, here.pass.passOne.pending⟩, rfl,
    follows.scopes.push, ?_, follows.sheet, ?_⟩
  · intro scope member
    rcases List.mem_cons.mp member with rfl | member
    · simp
    · exact follows.sound scope member
  · exact congrArg (· + 1) follows.depth

private theorem blockStatement_fails {head rest aim : Text} {error : Error}
    {blocks : List Block} (smooth : Smooth head)
    (noHole : (Nesting.after {} head).afterHash = false)
    (follows : Follows start state evaluation)
    (here : state.At (head ++ '{' :: rest))
    (fails : ∀ count, blockOf environment head.trim (state.pass count) =
      .error error (state.pass count)) :
    Performs start blocks aim (blockStatement environment state)
      (.error error evaluation) := by
  have read := @reading_smooth _ ['{'] _ _ _ here smooth (by decide)
    (by decide) (by decide) fun _ => noHole
  simp only [blockStatement, bind_apply, read, fails]
  exact ⟨rfl, follows.scopes, follows.sound, follows.sheet, follows.depth⟩

private theorem closeBlock_performs {block : Block}
    {outer : List Block} {rest : Text}
    (follows : Follows start state evaluation)
    (opened : state.blocks = block :: outer) (here : state.At ('}' :: rest)) :
    Performs start outer rest (closeBlock state)
      (.ok ⟨⟩ { evaluation with scopes := evaluation.scopes.tail }) := by
  have depth := follows.depth
  rw [opened, List.length_cons] at depth
  cases enclosing : state.scopes.outer with
  | nil => simp [enclosing] at depth
  | cons frame frames =>
      rw [closeBlock_cons opened enclosing]
      refine ⟨⟨here.passOne.ready, here.passOne.pending⟩, rfl,
        follows.scopes.pop (Scopes.pop_cons enclosing), ?_, follows.sheet, ?_⟩
      · exact fun scope member =>
          follows.sound scope (List.mem_of_mem_tail member)
      · rw [enclosing, List.length_cons] at depth
        exact Nat.succ.inj depth

end Compile

namespace Tree.PrintsTargets

variable {first : Target} {others : List Target} {text : Text}

theorem head (printed : PrintsTargets first others text) :
    ∃ c, text.head? = some c ∧ isOrdinary c = true := by
  obtain ⟨c, rest, starts, ordinary⟩ := first.ordinary.head
  cases printed with
  | one => exact ⟨c, by simp [starts], ordinary⟩
  | more _ _ _ => exact ⟨c, by simp [starts], ordinary⟩

theorem last (printed : PrintsTargets first others text) :
    ∃ c, text.getLast? = some c ∧ isOrdinary c = true := by
  induction printed with
  | one only =>
      obtain ⟨lead, c, ends, ordinary⟩ := only.ordinary.last
      exact ⟨c, by simp [ends], ordinary⟩
  | @more first _ _ before after _ _ _ _ ih =>
      obtain ⟨c, ends, ordinary⟩ := ih
      obtain ⟨lead, rfl⟩ := List.getLast?_eq_some_iff.mp ends
      refine
        ⟨c, List.getLast?_eq_some_iff.mpr
          ⟨first.text ++ before ++ ',' :: (after ++ lead), ?_⟩,
        ordinary⟩
      simp

theorem smooth (printed : PrintsTargets first others text) : Smooth text := by
  induction printed with
  | one only => exact only.ordinary.smooth
  | @more first _ _ _ _ _ before after _ ih =>
      exact (first.ordinary.smooth.append before.smooth).append
        (.cons (by decide) (after.smooth.append ih))

/-- The list is split into its selectors again. -/
theorem split (printed : PrintsTargets first others text) {gap : Text}
    (space : Spaces gap) :
    (Text.splitCommas (gap ++ text)).map Text.collapse =
      (first :: others).map Target.text := by
  have listedSpace : ∀ {gap : Text}, Spaces gap → ∀ c ∈ gap,
      isListed c = true := by
    intro gap space c member
    have standing := space c member
    simp only [isSpace, Bool.or_eq_true, beq_iff_eq] at standing
    rcases standing with ((((rfl | rfl) | rfl) | rfl) | rfl) | rfl <;> decide
  have listedTarget : ∀ (target : Target), ∀ c ∈ target.text,
      isListed c = true := by
    intro target c member
    rcases target.ordinary.mem c member with ordinary | rfl
    · exact listed_of_ordinary ordinary
    · decide
  induction printed generalizing gap with
  | one only =>
      have listed : ∀ c ∈ gap ++ only.text, isListed c = true := by
        intro c member
        rcases List.mem_append.mp member with member | member
        · exact listedSpace space c member
        · exact listedTarget only c member
      have collapsed :=
        @only.ordinary.collapse_around _ _ gap [] (fun _ => visible_of_ordinary)
        space.blank (by simp)
      rw [List.append_nil] at collapsed
      rw [Text.splitCommas_last listed, List.map_singleton, collapsed,
        List.map_singleton]
  | @more first second others before after text spaceBefore
        spaceAfter printed ih =>
      have listed : ∀ c ∈ gap ++ first.text ++ before, isListed c = true := by
        intro c member
        rcases List.mem_append.mp member with member | member
        · rcases List.mem_append.mp member with member | member
          · exact listedSpace space c member
          · exact listedTarget first c member
        · exact listedSpace spaceBefore c member
      have regrouped : gap ++ (first.text ++ before ++ ',' :: (after ++ text)) =
          gap ++ first.text ++ before ++ ',' :: (after ++ text) := by
        simp
      rw [regrouped, Text.splitCommas_cons listed, List.map_cons, ih spaceAfter,
        first.ordinary.collapse_around
          (fun _ => visible_of_ordinary) space.blank spaceBefore.blank]
      rfl

theorem parse (printed : PrintsTargets first others text) :
    Selector.parseList text = .ok ((first :: others).map Target.text) := by
  have split := @printed.split _ _ _ [] (by simp [Spaces])
  rw [List.nil_append] at split
  have kept : ((first :: others).map Target.text).filter (!·.isEmpty) =
      (first :: others).map Target.text := by
    rw [List.filter_eq_self]
    intro selector member
    obtain ⟨target, -, rfl⟩ := List.mem_map.mp member
    have nonempty := target.tidy.length_pos
    rw [List.length_pos_iff] at nonempty
    simpa using nonempty
  rw [Selector.parseList, split, kept]
  rfl

end Tree.PrintsTargets

namespace Compile

variable {environment : Environment} {state : State}

private theorem blockOf_targets {first : Target} {others : List Target}
    {targets space : Text} (printed : PrintsTargets first others targets)
    (spaces : Spaces space) :
    blockOf environment (Text.trim (targets ++ space)) state =
      match Selector.combine (state.blocks.head?.map Block.selectors)
        ((first :: others).map Target.text) with
      | .ok selectors => .ok { selectors } state
      | .error error => .error error state := by
  obtain ⟨c, starts, visibleFirst⟩ := printed.head
  obtain ⟨d, ends, visibleLast⟩ := printed.last
  have trimmed : Text.trim (targets ++ space) = targets := by
    have around :=
      @Text.trim_around [] targets space c d (by simp) spaces.blank starts
      (visible_of_ordinary visibleFirst) ends (visible_of_ordinary visibleLast)
    rwa [List.nil_append] at around
  have noColon : [':'].isSuffixOf? targets = none := by
    cases found : [':'].isSuffixOf? targets with
    | none => rfl
    | some front =>
        rw [List.isSuffixOf?_eq_some_iff_append_eq] at found
        rw [← found, List.getLast?_concat, Option.some.injEq] at ends
        exact absurd ends.symm (ne_of_ordinary visibleLast (by decide))
  have noHole : ∀ c ∈ targets, c ≠ '{' := fun c member =>
    ne_of_smooth (printed.smooth c member) (by decide)
  simp only [blockOf, bind_apply, get_apply, trimmed, noColon,
    interpolate_plain environment noHole, printed.parse, check, pure_apply]
  cases Selector.combine (state.blocks.head?.map Block.selectors)
    ((first :: others).map Target.text) with
  | ok selectors => rfl
  | error error => rfl

private theorem blockOf_nested {name : Name} {space : Text}
    (spaces : Spaces space) {block : Block} {outer : List Block}
    (inside : state.blocks = block :: outer) :
    blockOf environment (Text.trim (name.text ++ ':' :: space)) state =
      .ok { block with stem := block.stem ++ name.text ++ ['-'] } state := by
  obtain ⟨c, rest, starts, visibleFirst⟩ := name.tidy.head
  have trimmed : Text.trim (name.text ++ ':' :: space) =
      name.text ++ [':'] := by
    have around := @Text.trim_around [] (name.text ++ [':']) space c ':'
      (by simp) spaces.blank
      (by simp [starts]) (visible_of_ordinary visibleFirst)
        (by simp) (by decide)
    rwa [List.nil_append, List.append_assoc] at around
  have colon : [':'].isSuffixOf? (name.text ++ [':']) = some name.text := by
    rw [List.isSuffixOf?_eq_some_iff_append_eq]
  have noHole : ∀ c ∈ name.text, c ≠ '{' := fun c member =>
    ne_of_ordinary (ordinary_of_isNameChar (name.nameChars c member))
      (by decide)
  have same : Text.trim name.text = name.text :=
    name.tidy.trim_eq fun _ => visible_of_ordinary
  simp only [blockOf, bind_apply, get_apply, trimmed, colon, inside,
    List.head?_cons, same, interpolate_plain environment noHole, pure_apply]

end Compile

/-- A run of the compiler goes as the work of the evaluator: it comes to stand
in front of `rest`, but for white space, or fails with the same error. -/
def Agrees (environment : Environment) (start : Sheet)
    (blocks : List Block) (rest : Text) (state : State) :
    EStateM.Result Error Evaluation Unit → Prop
  | .ok _ evaluation =>
      ∃ next gap, State.Reaches environment state next ∧ Spaces gap ∧
      next.At (gap ++ rest) ∧ next.blocks = blocks ∧
      Follows start next evaluation
  | .error error evaluation =>
      ∃ last failed, State.Reaches environment state last ∧
      Compile.step environment last = .error error failed ∧
      Follows start failed evaluation

/-- Wherever the compiler stands in front of `text`, but for white space, with
the blocks `opened`, it goes on as the work of the evaluator. -/
def Proceeds (environment : Environment) (start : Sheet)
    (opened blocks : List Block) (text rest : Text)
    (work : Evaluate Unit) : Prop :=
  ∀ state evaluation gap, Spaces gap → state.At (gap ++ text) →
    state.blocks = opened →
    Follows start state evaluation →
    Agrees environment start blocks rest state (work evaluation)

namespace Agrees

variable {environment : Environment} {start : Sheet}
  {blocks middleBlocks : List Block}
  {middle rest : Text} {state : State} {evaluation : Evaluation}

/-- One statement is one step. -/
theorem of_step {reached : State} {action : Compile Unit}
    {expected : EStateM.Result Error Evaluation Unit}
    (taken : Compile.step environment state = (do action; return true) reached)
    (performs : Performs start blocks rest (action reached) expected) :
    Agrees environment start blocks rest state expected := by
  rw [bind_apply] at taken
  cases result : action reached with
  | ok value next =>
      rw [result] at taken performs
      cases expected with
      | ok value evaluation =>
          obtain ⟨here, same, follows⟩ := performs
          exact ⟨next, [], .step .refl taken, by simp [Spaces], here,
            same, follows⟩
      | error error evaluation => exact performs.elim
  | error error last =>
      rw [result] at taken performs
      cases expected with
      | ok value evaluation => exact performs.elim
      | error expected evaluation =>
          obtain ⟨rfl, follows⟩ := performs
          exact ⟨state, last, .refl, taken, follows⟩

theorem andThen {action next : Evaluate Unit}
    (first : Agrees environment start middleBlocks middle state
      (action evaluation))
    (second : Proceeds environment start middleBlocks blocks middle rest next) :
    Agrees environment start blocks rest state
      ((do action; next) evaluation) := by
  rw [bind_apply]
  cases result : action evaluation with
  | error error after =>
      rw [result] at first
      exact first
  | ok value after =>
      rw [result] at first
      obtain ⟨reached, gap, run, space, here, same, follows⟩ := first
      have continued := second reached after gap space here same follows
      dsimp only
      cases final : next after with
      | ok value last =>
          rw [final] at continued
          obtain ⟨next, gap, more, facts⟩ := continued
          exact ⟨next, gap, run.trans more, facts⟩
      | error error last =>
          rw [final] at continued
          obtain ⟨next, failed, more, facts⟩ := continued
          exact ⟨next, failed, run.trans more, facts⟩

/-- A block is opened, its statements are read, and it is closed. -/
theorem block {block : Block} {contents : Text} {body : Evaluate Unit}
    (opening : Agrees environment start (block :: blocks)
      (contents ++ '}' :: rest) state
      (.ok ⟨⟩ { evaluation with scopes := [] :: evaluation.scopes }))
    (inner : Proceeds environment start (block :: blocks) (block :: blocks)
      (contents ++ '}' :: rest) ('}' :: rest) body) :
    Agrees environment start blocks rest state (inScope body evaluation) := by
  refine andThen opening fun reached after gap space here same follows => ?_
  refine andThen (inner reached after gap space here same follows) ?_
  intro last final gap space here same follows
  have skipped :=
    @Compile.step_skip last _ environment gap here space (by simp [isSpace])
  rw [Compile.step_closing here.pass] at skipped
  exact of_step skipped
    (Compile.closeBlock_performs (follows.pass _) same here.pass)

end Agrees

theorem afterHash_space {text space : Text} (spaces : Spaces space)
    (present : space ≠ []) :
    (Nesting.after {} (text ++ space)).afterHash = false := by
  obtain ⟨lead, c, rfl⟩ := (List.eq_nil_or_concat' space).resolve_left present
  rw [← List.append_assoc, Nesting.afterHash_append]
  have standing := spaces c (by simp)
  simpa using ne_of_isSpace standing (by decide : isSpace '#' = false)

namespace Compile

variable {environment : Environment} {state : State}
  {lead text rest : Text} {c : Char}

theorem step_printed (here : state.At (lead ++ (text ++ rest)))
    (space : Spaces lead) (starts : text.head? = some c)
    (ordinary : isOrdinary c = true) :
    step environment state =
      (do statement environment; return true) (state.pass lead.length) := by
  obtain ⟨others, rfl⟩ := List.head?_eq_some_iff.mp starts
  have visible : isSpace c = false := by
    cases space : isSpace c with
    | false => rfl
    | true =>
        rw [← visible_of_ordinary ordinary]
        exact (isBlank_of_isSpace space).symm
  have marks : ∀ mark ∈ ['}', ';', '$', '@'], mark ∈ marks := by decide
  rw [step_skip here space (by simpa using visible)]
  exact step_statement here.pass visible fun member =>
    ne_of_ordinary ordinary (marks c member) rfl

theorem statement_opening (here : state.At (text ++ '{' :: rest))
    (smooth : Smooth text)
    (noHole : (Nesting.after {} text).afterHash = false) :
    statement environment state = blockStatement environment state := by
  have boundary := @ofText_smooth text rest '{' smooth (.inl rfl)
    fun _ => noHole
  simp only [statement, bind_apply, get_apply, here.pending, boundary,
    Boundary.ofChar?]

theorem statement_semicolon (here : state.At (text ++ ';' :: rest))
    (smooth : Smooth text) :
    statement environment state = declaration environment state := by
  have boundary := @ofText_smooth text rest ';' smooth (.inr rfl) (by simp)
  simp only [statement, bind_apply, get_apply, here.pending, boundary,
    Boundary.ofChar?]

end Compile

/-- The selectors and the stem of a context are those of the innermost block. -/
def Tree.Context.Fits {inside : Bool} (blocks : List Block) :
    Context inside → Prop
  | .outside => blocks = []
  | .inside selectors stem => ∃ outer, blocks = { selectors, stem } :: outer

theorem Tree.Context.Fits.selectors {inside : Bool} {blocks : List Block}
    {context : Context inside} (fits : context.Fits blocks) :
    blocks.head?.map Block.selectors = context.selectors? := by
  cases context with
  | outside =>
      rw [show blocks = [] from fits]
      rfl
  | inside selectors stem =>
      obtain ⟨outer, rfl⟩ := fits
      rfl

theorem Tree.Spaces.append {first second : Text} (left : Spaces first)
    (right : Spaces second) :
    Spaces (first ++ second) := by
  intro c member
  rcases List.mem_append.mp member with member | member
  · exact left c member
  · exact right c member

/-- A printed head opens its block. -/
theorem Agrees.opening {environment : Environment} {start : Sheet}
    {state : State} {evaluation : Evaluation} {lead head rest : Text} {c : Char}
    {block : Block} (here : state.At (lead ++ (head ++ '{' :: rest)))
    (space : Spaces lead) (starts : head.head? = some c)
    (ordinary : isOrdinary c = true) (smooth : Smooth head)
    (noHole : (Nesting.after {} head).afterHash = false)
    (follows : Follows start state evaluation)
    (opens : ∀ count, Compile.blockOf environment head.trim (state.pass count) =
      .ok block (state.pass count)) :
    Agrees environment start (block :: state.blocks) rest state
      (.ok ⟨⟩ { evaluation with scopes := [] :: evaluation.scopes }) := by
  have taken :=
    @Compile.step_printed environment _ _ _ _ _ here space starts ordinary
  have performs :=
    Compile.blockStatement_opens smooth noHole
      (follows.pass lead.length) here.pass
    fun count => by rw [State.pass_pass, opens]
  rw [← Compile.statement_opening here.pass smooth noHole] at performs
  exact .of_step taken performs

namespace Proceeds

variable {environment : Environment} {start : Sheet} {blocks : List Block}
  {text rest : Text}

/-- A definition and the statements behind it. -/
theorem definition {inside continues : Bool} {context : Context inside}
    (name : VariableName) (value : Tree.Value continues) (isDefault : Bool)
    {next : Statements inside} {lead before mark after : Text}
    (spaceLead : Spaces lead) (spaceBefore : Spaces before)
    (spaceMark : Spaces mark) (spaceAfter : Spaces after)
    (following : Proceeds environment start blocks blocks (text ++ rest) rest
      (next.evaluate context)) :
    Proceeds environment start blocks blocks
      (lead ++ '$' :: (name.text ++ ':' ::
        (before ++ (value.text ++ defaultMark mark isDefault) ++ after ++ ';' ::
          text)) ++ rest)
      rest
        ((Statements.definition name value isDefault next).evaluate
          context) := by
  intro state evaluation gap space here opened follows
  subst opened
  have standing :
      state.At (gap ++ lead ++ '$' :: (name.text ++ ':' :: (before ++
      (value.text ++ defaultMark mark isDefault) ++ after ++ ';' ::
        (text ++ rest)))) := by
    simpa using here
  have taken :=
    @Compile.step_skip state _ environment _ standing (space.append spaceLead)
    (by simp [isSpace])
  rw [Compile.step_variable standing.pass] at taken
  have performs :=
    @Compile.variableStatement_printed environment _ _ _ _ name value isDefault
    _ _ _ _ spaceBefore spaceMark spaceAfter (follows.pass _) standing.pass
  exact (Agrees.of_step taken performs).andThen following

/-- A declaration and the statements behind it. -/
theorem declaration {continues : Bool} {selectors : List Text}
    {stem : Text} (name : Name) (value : Tree.Value continues)
    {next : Statements true} {lead before after : Text}
    (spaceLead : Spaces lead) (spaceBefore : Spaces before)
    (spaceAfter : Spaces after)
    (fits : (Context.inside selectors stem).Fits blocks)
    (following : Proceeds environment start blocks blocks (text ++ rest) rest
      (next.evaluate (.inside selectors stem))) :
    Proceeds environment start blocks blocks
      (lead ++ (name.text ++ ':' :: (before ++ value.text ++ after)) ++ ';' ::
        text ++ rest) rest
      ((Statements.declaration name value next).evaluate
        (.inside selectors stem)) := by
  intro state evaluation gap space here opened follows
  obtain ⟨outer, rfl⟩ := fits
  have standing : state.At (gap ++ lead ++ ((name.text ++ ':' ::
      (before ++ value.text ++ after)) ++ ';' :: (text ++ rest))) := by
    simpa using here
  obtain ⟨c, others, starts, ordinary⟩ := name.tidy.head
  have taken := @Compile.step_printed environment state _ _ _ c standing
    (space.append spaceLead) (by simp [starts]) ordinary
  have smooth : Smooth (name.text ++ ':' :: (before ++ value.text ++ after)) :=
    name.tidy.smooth.append (.cons (by decide)
      ((spaceBefore.smooth.append value.smooth).append spaceAfter.smooth))
  have performs :=
    @Compile.declaration_printed environment _ _ _ _ name value _ _ _ _ _ _
    spaceBefore spaceAfter (follows.pass _) opened standing.pass
  rw [← Compile.statement_semicolon standing.pass smooth] at performs
  rw [State.pass_blocks, opened] at performs
  exact (Agrees.of_step taken performs).andThen following

/-- A rule and the statements behind it. -/
theorem rule {inside : Bool} {context : Context inside} {first : Target}
    {others : List Target} {body : Statements true} {next : Statements inside}
    {lead targets spaces contents : Text} (spaceLead : Spaces lead)
    (printsTargets : PrintsTargets first others targets)
    (spaceBefore : Spaces spaces) (present : spaces ≠ [])
    (fits : context.Fits blocks)
    (inner : ∀ selectors, Proceeds environment start ({ selectors } :: blocks)
      ({ selectors } :: blocks) (contents ++ '}' :: (text ++ rest))
        ('}' :: (text ++ rest))
      (body.evaluate (.inside selectors [])))
    (following : Proceeds environment start blocks blocks (text ++ rest) rest
      (next.evaluate context)) :
    Proceeds environment start blocks blocks
      (lead ++ (targets ++ spaces) ++ '{' :: (contents ++ '}' :: text) ++ rest)
        rest
      ((Statements.rule first others body next).evaluate context) := by
  intro state evaluation gap space here opened follows
  have standing : state.At (gap ++ lead ++ ((targets ++ spaces) ++
      '{' :: (contents ++ '}' :: (text ++ rest)))) := by
    simpa using here
  obtain ⟨c, starts, ordinary⟩ := printsTargets.head
  have first? : (targets ++ spaces).head? = some c := by simp [starts]
  have smooth := printsTargets.smooth.append spaceBefore.smooth
  have noHole := @afterHash_space targets _ spaceBefore present
  have opens :=
    fun count => @Compile.blockOf_targets environment (state.pass count) _ _ _ _
    printsTargets spaceBefore
  have parents : ∀ count, (state.pass count).blocks.head?.map Block.selectors =
      context.selectors? := by
    intro count
    rw [State.pass_blocks, opened, fits.selectors]
  cases combined :
    Selector.combine context.selectors? ((first :: others).map Target.text) with
  | error error =>
      simp only [parents, combined] at opens
      have performs :=
        @Compile.blockStatement_fails environment _ start _ _ _ rest _ blocks
        smooth noHole (follows.pass _) standing.pass
        fun count => by rw [State.pass_pass, opens]
      rw [← Compile.statement_opening standing.pass smooth noHole] at performs
      simp only [Statements.evaluate, bind_apply, combined,
        attempt, throw_apply]
      exact .of_step
        (Compile.step_printed standing (space.append spaceLead) first? ordinary)
        performs
  | ok selectors =>
      simp only [parents, combined] at opens
      have evaluated :
          (Statements.rule first others body next).evaluate context evaluation =
          (do
            inScope (body.evaluate (.inside selectors []))
            next.evaluate context)
            evaluation := by
        simp only [Statements.evaluate, bind_apply, combined,
          attempt, pure_apply]
      have entered :=
        Agrees.opening standing (space.append spaceLead) first? ordinary smooth
        noHole follows opens
      rw [opened] at entered
      rw [evaluated]
      exact (entered.block (inner selectors)).andThen following

/-- A block of nested properties and the statements behind it. -/
theorem nested {selectors : List Text} {stem : Text} (name : Name)
    {body next : Statements true} {lead spaces contents : Text}
    (spaceLead : Spaces lead) (spaceBefore : Spaces spaces)
    (present : spaces ≠ []) (fits : (Context.inside selectors stem).Fits blocks)
    (inner : Proceeds environment start
      ({ selectors, stem := stem ++ name.text ++ ['-'] } :: blocks)
      ({ selectors, stem := stem ++ name.text ++ ['-'] } :: blocks)
      (contents ++ '}' :: (text ++ rest)) ('}' :: (text ++ rest))
      (body.evaluate (.inside selectors (stem ++ name.text ++ ['-']))))
    (following : Proceeds environment start blocks blocks (text ++ rest) rest
      (next.evaluate (.inside selectors stem))) :
    Proceeds environment start blocks blocks
      (lead ++ (name.text ++ ':' :: spaces) ++ '{' ::
        (contents ++ '}' :: text) ++ rest) rest
      ((Statements.nested name body next).evaluate
        (.inside selectors stem)) := by
  intro state evaluation gap space here opened follows
  obtain ⟨outer, rfl⟩ := fits
  have standing : state.At (gap ++ lead ++ ((name.text ++ ':' :: spaces) ++
      '{' :: (contents ++ '}' :: (text ++ rest)))) := by
    simpa using here
  obtain ⟨c, others, starts, ordinary⟩ := name.tidy.head
  have smooth : Smooth (name.text ++ ':' :: spaces) :=
    name.tidy.smooth.append (.cons (by decide) spaceBefore.smooth)
  have noHole :
      (Nesting.after {} (name.text ++ ':' :: spaces)).afterHash = false := by
    have last := @afterHash_space (name.text ++ [':']) _ spaceBefore present
    rwa [List.append_assoc] at last
  have entered :=
    Agrees.opening standing (space.append spaceLead) (by simp [starts])
    ordinary smooth noHole follows fun count =>
      @Compile.blockOf_nested environment
      (state.pass count) name _ spaceBefore _ _ opened
  rw [opened] at entered
  exact (entered.block inner).andThen following

/-- The compiler runs through printed statements as the evaluator does through
the tree. -/
theorem statements {inside : Bool} {tree : Statements inside}
    (printed : Prints tree text) {context : Context inside}
    (fits : context.Fits blocks) :
    Proceeds environment start blocks blocks (text ++ rest) rest
      (tree.evaluate context) := by
  induction printed generalizing blocks rest with
  | done spaces =>
      intro state evaluation gap space here opened follows
      rw [← List.append_assoc] at here
      exact ⟨state, _, .refl, space.append spaces, here, opened, follows⟩
  | definition lead before mark after _ ih =>
      exact definition _ _ _ lead before mark after (ih fits)
  | declaration lead before after _ ih =>
      cases context with
      | inside selectors stem =>
          exact declaration _ _ lead before after fits (ih fits)
  | rule lead targets space present _ _ ihBody ihNext =>
      exact rule lead targets space present fits
        (fun _ => ihBody ⟨_, rfl⟩) (ihNext fits)
  | nested lead space present _ _ ihBody ihNext =>
      cases context with
      | inside selectors stem =>
          exact nested _ lead space present fits (ihBody ⟨_, rfl⟩) (ihNext fits)

end Proceeds

end Stylesheet
