import Stylesheet.Proofs.BlockScopes
import Stylesheet.Proofs.TreeCompile

/-!
# Correctness on printed trees

A fresh compilation of the printed form of a tree ends with the rules, the
variables and the error of the tree's evaluation.
-/

namespace Stylesheet

open Stylesheet.Tree

theorem attach_attach (selectors : List Text) (first second : List Property)
    (rules : List Definition) :
    attach selectors first (attach selectors second rules) =
      attach selectors (first ++ second) rules := by
  cases rules with
  | nil => simp [attach]
  | cons definition rules =>
      cases definition with
      | comment text => simp [attach]
      | rule others properties =>
          by_cases same : others = selectors
          · simp [attach, same]
          · simp [attach, same]

private theorem attach_other {selectors others : List Text}
    (differ : others ≠ selectors) (first second : List Property)
    (rules : List Definition) :
    attach selectors first (attach others second rules) =
      .rule selectors first :: attach others second rules := by
  cases rules with
  | nil => simp [attach, differ]
  | cons definition rules =>
      cases definition with
      | comment text => simp [attach, differ]
      | rule next properties =>
          by_cases same : next = others
          · simp [attach, same, differ]
          · simp [attach, same, differ]

/-- Adding properties one by one gathers them into rules, the newest first. -/
theorem newest_foldl (emitted : List Emission) (selectors : List Text)
    (properties : List Property) (older : List Definition) :
    (emitted.foldl
      (fun sheet emission =>
        sheet.addProperty emission.selectors emission.property)
        (⟨.rule selectors properties :: older⟩ : Sheet)).newest =
      (attach selectors properties (gather emitted)).reverse ++ older := by
  induction emitted generalizing selectors properties older with
  | nil => simp [gather, attach]
  | cons emission emitted ih =>
      rw [List.foldl_cons, gather]
      by_cases same : emission.selectors = selectors
      · have added : Sheet.addProperty ⟨.rule selectors properties :: older⟩
            emission.selectors emission.property =
              ⟨.rule selectors (properties ++ [emission.property]) ::
                older⟩ := by
          simp [Sheet.addProperty, same]
        rw [added, ih, same, attach_attach]
      · have added : Sheet.addProperty ⟨.rule selectors properties :: older⟩
            emission.selectors emission.property =
              ⟨.rule emission.selectors [emission.property] :: .rule selectors
                properties :: older⟩ := by
          simp [Sheet.addProperty, Ne.symm same]
        rw [added, ih, attach_other same]
        simp

theorem toList_foldl {sheet : Sheet}
    (fresh : ∀ selectors properties older,
      sheet.newest ≠ .rule selectors properties :: older)
    (emitted : List Emission) :
    (emitted.foldl
      (fun sheet emission =>
        sheet.addProperty emission.selectors emission.property)
        sheet).toList = sheet.toList ++ gather emitted := by
  cases emitted with
  | nil => simp [gather]
  | cons emission emitted =>
      have added : sheet.addProperty emission.selectors emission.property =
          ⟨.rule emission.selectors [emission.property] :: sheet.newest⟩ := by
        unfold Sheet.addProperty
        split
        · rename_i selectors properties older same
          exact absurd same (fresh selectors properties older)
        · rfl
      rw [List.foldl_cons, added, Sheet.toList, newest_foldl,
        gather, Sheet.toList]
      simp

private theorem bindings_closeScopes (blocks : List Block) (scopes : Scopes) :
    (State.closeScopes scopes blocks).bindings = scopes.bindings := by
  induction blocks generalizing scopes with
  | nil => rfl
  | cons block blocks ih =>
      unfold State.closeScopes
      cases outer : scopes.outer with
      | nil => rw [Scopes.pop_global outer]
      | cons frame frames =>
          rw [Scopes.pop_cons outer]
          exact ih _

/-- When the open blocks are closed, the global variables are left. -/
theorem Follows.finish {start : Sheet} {state : State} {evaluation : Evaluation}
    (follows : Follows start state evaluation) (name : Text) :
    (state.finish.scopes.get? name).map Binding.entry =
      evaluation.globals.lookup name := by
  have frames : state.finish.scopes.frames =
      state.scopes.frames.drop state.blocks.length :=
    State.frames_closeScopes _ _ follows.depth.ge
  have mirrors : Mirrors state.finish.scopes
      (evaluation.scopes.drop state.blocks.length) := by
    unfold Mirrors
    rw [frames, show state.finish.scopes.bindings = state.scopes.bindings from
      bindings_closeScopes _ _]
    exact List.forall₂_drop _ follows.scopes
  have length : evaluation.scopes.length = state.blocks.length + 1 := by
    rw [← follows.scopes.length_eq, Scopes.frames, List.length_cons,
      follows.depth]
  have last : evaluation.scopes.drop state.blocks.length =
      [evaluation.globals] := by
    obtain ⟨inner, scope, same⟩ :=
      (List.eq_nil_or_concat' evaluation.scopes).resolve_left
      (List.ne_nil_of_length_eq_add_one length)
    rw [same, List.length_append, List.length_singleton,
      Nat.add_right_cancel_iff] at length
    rw [Evaluation.globals, same, ← length]
    simp
  rw [mirrors.get name, last, find, List.findSome?_singleton]

/-- The characters of printed trees. -/
def isPrinted (c : Char) : Bool :=
  isOrdinary c || isSpace c || ['$', ':', ';', '{', '}', ',', '!'].contains c

theorem Tree.Spaces.printed {gap : Text} (space : Spaces gap) :
    ∀ c ∈ gap, isPrinted c = true :=
  fun c member => by simp [isPrinted, space c member]

theorem Tidy.printed {text : Text} (tidy : Tidy isOrdinary text) :
    ∀ c ∈ text, isPrinted c = true := by
  intro c member
  rcases tidy.mem c member with ordinary | rfl
  · simp [isPrinted, ordinary]
  · decide

theorem Tree.Value.printed {continues : Bool} (value : Tree.Value continues) :
    ∀ c ∈ value.text, isPrinted c = true := by
  intro c member
  rcases value.tidy.mem c member with source | rfl
  · simp only [isSourceChar, Bool.or_eq_true, beq_iff_eq] at source
    rcases source with ordinary | rfl
    · simp [isPrinted, ordinary]
    · decide
  · decide

theorem Tree.PrintsTargets.printed {first : Target}
    {others : List Target} {text : Text}
    (prints : PrintsTargets first others text) : ∀ c ∈ text,
      isPrinted c = true := by
  induction prints with
  | one only => exact only.ordinary.printed
  | @more first _ _ _ _ _ before after _ ih =>
      simp only [List.forall_mem_append, List.forall_mem_cons]
      exact ⟨⟨first.ordinary.printed, before.printed⟩, by decide,
        after.printed, ih⟩

theorem Tree.Prints.printed {inside : Bool}
    {tree : Statements inside} {text : Text} (prints : Prints tree text) :
    ∀ c ∈ text, isPrinted c = true := by
  induction prints with
  | done space => exact space.printed
  | @definition _ _ isDefault name value _ _ _ mark _ _ lead before
        gap after _ ih =>
      have marked : ∀ c ∈ defaultMark mark isDefault, isPrinted c = true := by
        cases isDefault with
        | false => simp [defaultMark]
        | true =>
            simp only [defaultMark, if_true, List.forall_mem_append]
            exact ⟨gap.printed, by decide⟩
      simp only [List.forall_mem_append, List.forall_mem_cons]
      exact ⟨lead.printed, by decide, name.tidy.printed, by decide,
        ⟨⟨before.printed, value.printed, marked⟩, after.printed⟩, by decide, ih⟩
  | @declaration _ name value _ _ _ _ _ lead before after _ ih =>
      simp only [List.forall_mem_append, List.forall_mem_cons]
      exact
        ⟨⟨lead.printed, name.tidy.printed, by decide,
          ⟨before.printed, value.printed⟩,
        after.printed⟩, by decide, ih⟩
  | rule lead targets space _ _ _ ihBody ihNext =>
      simp only [List.forall_mem_append, List.forall_mem_cons]
      exact ⟨⟨lead.printed, targets.printed, space.printed⟩, by decide, ihBody,
        by decide, ihNext⟩
  | @nested name _ _ _ _ _ _ lead space _ _ _ ihBody ihNext =>
      simp only [List.forall_mem_append, List.forall_mem_cons]
      exact ⟨⟨lead.printed, name.tidy.printed, by decide, space.printed⟩,
        by decide, ihBody, by decide, ihNext⟩

private theorem uncommented_of_isPrinted {c : Char}
    (printed : isPrinted c = true) :
    isQuote c = false ∧ c ≠ '/' := by
  simp only [isPrinted, Bool.or_eq_true, List.contains_eq_mem,
    decide_eq_true_eq] at printed
  rcases printed with (ordinary | space) | sign
  · exact ⟨unquoted_of_ordinary ordinary, ne_of_ordinary ordinary (by decide)⟩
  · refine ⟨?_, ne_of_isSpace space (by decide)⟩
    have double := @ne_of_isSpace c '"' space (by decide)
    have single := @ne_of_isSpace c '\'' space (by decide)
    simp [isQuote, double, single]
  · have all : ∀ sign ∈ ['$', ':', ';', '{', '}', ',', '!'],
        isQuote sign = false ∧ sign ≠ '/' := by decide
    exact all c sign

theorem at_start (compilation : Compilation) {source : Text}
    (file : Option Text) (plain : ∀ c ∈ source, isQuote c = false ∧ c ≠ '/') :
    (compilation.start source file).At source where
  ready := Cursor.ready_advance _
  pending := by
    have layers := Cursor.layers_ofText (Comment.strip source) file
    rw [Comment.strip_plain plain] at layers
    change (Cursor.ofText (Comment.strip source) file).advance.pending = source
    rw [Comment.strip_plain plain, ← Cursor.flatten_layers, layers,
      List.flatten_singleton]

/-- The error that a run has ended with, if it has ended. -/
def verdict? : Outcome → Option (Option Error)
  | .finished => some none
  | .failed failure => some (some failure.error)
  | .unfinished => none

/-- A run that agrees with an evaluation to the end of the text ends as the
evaluation does. -/
theorem Agrees.run {environment : Environment} {start : Sheet} {state : State}
    {result : EStateM.Result Error Evaluation Unit}
    (agrees : Agrees environment start [] [] state result) :
    ∃ enough last, Follows start last (finalState result) ∧ ∀ fuel,
      enough ≤ fuel →
      verdict? (state.run environment fuel).1 = some (failure? result) ∧
        (state.run environment fuel).2 = last := by
  cases result with
  | ok value evaluation =>
      obtain ⟨next, gap, reached, space, here, closed, follows⟩ := agrees
      obtain ⟨count, runs⟩ := reached.run_eq
      have ended := @Compile.step_skip _ _ environment _ here space (by simp)
      rw [Compile.step_ended here.pass closed] at ended
      refine
        ⟨count + 1, next.pass gap.length, follows.pass _, fun fuel enough => ?_⟩
      obtain ⟨more, rfl⟩ := Nat.exists_eq_add_of_le enough
      rw [Nat.add_assoc, runs, Nat.add_comm, State.run, ended]
      exact ⟨rfl, rfl⟩
  | error error evaluation =>
      obtain ⟨last, failed, reached, stopped, follows⟩ := agrees
      obtain ⟨count, runs⟩ := reached.run_eq
      refine ⟨count + 1, failed, follows, fun fuel enough => ?_⟩
      obtain ⟨more, rfl⟩ := Nat.exists_eq_add_of_le enough
      rw [Nat.add_assoc, runs, Nat.add_comm, State.run, stopped]
      exact ⟨rfl, rfl⟩

private theorem sheet_announce_fresh (environment : Environment)
    (file : Option Text) (selectors : List Text) (properties : List Property)
    (older : List Definition) :
    (Compilation.announce environment {} file).sheet.newest ≠
      .rule selectors properties :: older := by
  unfold Compilation.announce
  split
  · dsimp only
    split
    · simp [Compilation.record, Sheet.addComment]
    · simp [Compilation.record]
  · simp [Compilation.record]

/-- Compiling the printed form of a tree gives what the tree evaluates to: the
same success or error, the same rules, and the same global variables. -/
theorem process_printed (environment : Environment) (file : Option Text)
    {tree : Statements false} {source : Text} (printed : Prints tree source) :
    ∃ enough, ∀ fuel, enough ≤ fuel →
      let result := tree.evaluate .outside {}
      let processed := Compilation.process environment fuel {} source file
      verdict? processed.1 = some (failure? result) ∧
        processed.2.sheet.toList =
          (Compilation.announce environment {} file).sheet.toList ++
            gather (finalState result).emitted ∧
        ∀ name, (processed.2.scopes.get? name).map Binding.entry =
          (finalState result).globals.lookup name := by
  obtain ⟨sheet, log, announced⟩ := Compilation.announce_eq environment {} file
  have fresh := sheet_announce_fresh environment file
  rw [announced] at fresh
  have standing :
      ((Compilation.announce environment {} file).start source file).At
        source :=
    at_start _ file fun c member =>
      uncommented_of_isPrinted (printed.printed c member)
  have follows : Follows sheet
      ((Compilation.announce environment {} file).start source file) {} := by
    rw [announced]
    exact ⟨.cons (.nil _) .nil, by simp [Sound], rfl, rfl⟩
  have agrees := @Proceeds.statements environment sheet [] _ [] _ _ printed
    .outside rfl _ _ [] (by simp [Spaces]) (by simpa using standing) rfl follows
  obtain ⟨enough, last, final, ends⟩ := agrees.run
  refine ⟨enough, fun fuel sufficient => ?_⟩
  obtain ⟨verdict, stopped⟩ := ends fuel sufficient
  obtain ⟨log, processed⟩ :=
    Compilation.process_eq environment fuel {} source file
  dsimp only at processed ⊢
  rw [processed, stopped, announced]
  rw [announced] at verdict
  refine ⟨verdict, ?_, final.finish⟩
  change last.sheet.toList = _
  rw [final.sheet, toList_foldl fresh]

/-- A variable, and a rule with a declaration and a nested property that refer
to it. -/
def Tree.sample : Statements false :=
  .definition ⟨⟨['x'], by decide, by decide⟩, by decide⟩
    (.last (.char '2' (by decide))) true
    (.rule ⟨['.', 'a'], .cons (by decide) (.char (by decide))⟩
      [⟨['b'], .char (by decide)⟩] (.declaration ⟨['c'], by decide, by decide⟩
        (.spaced (.reference ⟨⟨['x'], by decide, by decide⟩, by decide⟩)
          (.last (.char '%' (by decide))))
        (.nested ⟨['d'], by decide, by decide⟩
          (.declaration ⟨['e'], by decide, by decide⟩
            (.last (.reference ⟨⟨['x'], by decide, by decide⟩, by decide⟩))
              .done)
          .done))
      .done)

theorem Tree.prints_sample :
    Prints sample
      "$x: 2 !default; .a, b \x7bc: $x %; d: \x7be:$x;\x7d\x7d\n".toList := by
  have space : Spaces [' '] := by simp [Spaces, isSpace]
  have none : Spaces [] := by simp [Spaces]
  have line : Spaces ['\n'] := by simp [Spaces, isSpace]
  have inner := @Prints.declaration _ ⟨['e'], by decide, by decide⟩
    (.last (.reference ⟨⟨['x'], by decide, by decide⟩, by decide⟩)) _ _ _ _ _
      none none none
    (.done none)
  have body := @Prints.declaration _ ⟨['c'], by decide, by decide⟩
    (.spaced (.reference ⟨⟨['x'], by decide, by decide⟩, by decide⟩)
      (.last (.char '%' (by decide)))) _ _ _ _ _ none space none
    (@Prints.nested ⟨['d'], by decide, by decide⟩ _ _ _ _ _ _ space space
      (by simp) inner (.done none))
  exact .definition none space space none
    (.rule space (.more none space (.one _)) space (by simp) body (.done line))

theorem process_printed_sample :
    Prints sample
      "$x: 2 !default; .a, b \x7bc: $x %; d: \x7be:$x;\x7d\x7d\n".toList ∧
      ∃ enough, ∀ fuel, enough ≤ fuel →
        (Compilation.process {} fuel {}
          "$x: 2 !default; .a, b \x7bc: $x %; d: \x7be:$x;\x7d\x7d\n".toList
            none).2.sheet.toList =
            [.rule [['.', 'a'], ['b']]
              [⟨['c'], ['2', ' ', '%']⟩, ⟨['d', '-', 'e'], ['2']⟩]] := by
  refine ⟨prints_sample, ?_⟩
  obtain ⟨enough, ends⟩ := process_printed {} none prints_sample
  exact ⟨enough, fun fuel sufficient => (ends fuel sufficient).2.1⟩

end Stylesheet
