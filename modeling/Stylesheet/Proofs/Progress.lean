import Mathlib.Data.List.DropRight
import Stylesheet.Proofs.Consumption

/-!
# How a statement goes on

A statement that succeeds passes over some text.  An inclusion then puts the
body of a mixin in front of the rest, and a condition one of the bodies it has
passed.  `Progress` lists these three outcomes.

The conditions of the `@else if` branches after a chosen body are passed over
without being looked at.  Such a condition can run over a closing brace that is
not its own, so what is said about a chosen body assumes that none does.
-/

namespace Stylesheet

open Compile

/-- The condition of a branch at the start of a text, and what follows its
body. -/
def splitBranch? (text : Text) : Option (Text × Text) :=
  let condition := Nesting.spanUntil ['{'].contains {} text
  match text.drop condition.length with
  | '{' :: inner =>
      (spanGroup '{' '}' 0 .outside inner).map fun body =>
        (condition, inner.drop (body.length + 1))
  | _ => none

/-- The conditions of the `@else if` branches at the start of a text. -/
def elseConditions : (fuel : Nat) → Text → List Text
  | 0, _ => []
  | fuel + 1, text =>
      match afterWord? "@else".toList (text.dropWhile isSpace) with
      | none => []
      | some text =>
          match afterWord? "if".toList (text.dropWhile isSpace) with
          | none => []
          | some text =>
              match splitBranch? text with
              | none => []
              | some (condition, rest) => condition :: elseConditions fuel rest

/-- The conditions of the `@else if` branches of the statement at the cursor. -/
def State.elseConditions (state : State) : List Text :=
  match afterWord? "@if".toList (state.cursor.pending.dropWhile isSpace) with
  | none => []
  | some text =>
      match splitBranch? (text.dropWhile isSpace) with
      | none => []
      | some (_, rest) => Stylesheet.elseConditions (rest.length + 1) rest

/-- No `@else if` condition of the statement at the cursor runs over a closing
brace that is not its own. -/
def State.Orderly (state : State) : Prop :=
  ∀ condition ∈ state.elseConditions, Bracing.contains {} condition = true

/-- How a statement that succeeded went on in the text. -/
inductive Progress (before after : State) : Prop where
  /-- Text was passed. -/
  | passed {taken rest : Text} (passed : Passed before after taken rest)
      (some : taken ≠ []) (shut : Shut taken)
  /-- After an inclusion, the body of a mixin and a closing brace are to be
  read. -/
  | included {taken rest : Text} {source : Source} {mixin : Mixin}
      (pending : before.cursor.pending = taken ++ rest) (some : taken ≠ [])
      (loose : Loose taken)
      (registered : mixin ∈ before.mixins.toList)
        (text : source.text = mixin.body ++ ['}'])
      (inserted : (before.cursor.advanceBy taken.length).insert source =
        .ok after.cursor)
  /-- After a condition, a body that was passed is to be read. -/
  | chose {lead tail rest : Text} {source : Source}
      (pending : before.cursor.pending =
        lead ++ '{' :: source.text ++ '}' :: tail ++ rest)
      (shut : Shut lead)
      (cut : spanGroup '{' '}' 0 .outside (source.text ++ '}' :: tail ++ rest) =
        some source.text)
      (kept : Contained tail)
      (inserted : (before.cursor.advanceBy
        (lead ++ '{' :: source.text ++ '}' :: tail).length).insert source =
          .ok after.cursor)

theorem Progress.after {before middle final : State} {taken rest : Text}
    (passed : Passed before middle taken rest) (loose : Loose taken)
    (ready : before.cursor.Ready) (mixins : middle.mixins = before.mixins)
    (progress : Progress middle final) : Progress before final := by
  cases progress with
  | passed later some shut =>
      exact .passed (passed.trans later ready) (by simp [some])
        (loose.shut.append shut)
  | @included more left source mixin pending some more_loose registered
        text inserted =>
      have same : rest = more ++ left := by rw [← passed.rest_eq ready, pending]
      refine @Progress.included _ _ (taken ++ more) left _ _ ?_ (by simp [some])
        (chains_loose.append loose more_loose) (mixins ▸ registered) text ?_
      · rw [passed.pending, same, List.append_assoc]
      · rw [List.length_append, Cursor.advanceBy_add, ← passed.cursor]
        exact inserted
  | @chose lead tail left source pending shut cut kept inserted =>
      have same : rest = lead ++ '{' :: source.text ++ '}' :: tail ++ left := by
        rw [← passed.rest_eq ready, pending]
      refine @Progress.chose _ _ (taken ++ lead) _ _ _ ?_
        (loose.shut.append shut) cut kept ?_
      · rw [passed.pending, same]
        simp
      · rw [List.append_assoc, List.append_assoc, List.length_append,
          Cursor.advanceBy_add, ← passed.cursor, ← List.append_assoc]
        exact inserted

/-- `taken` is a condition and a body in braces, and `rest` follows them. -/
structure IsBranch (condition body taken rest : Text) : Prop where
  whole : taken = condition ++ '{' :: body ++ ['}']
  shut : Shut condition
  cut : spanGroup '{' '}' 0 .outside (body ++ '}' :: rest) = some body
  split : splitBranch? (taken ++ rest) = some (condition, rest)

theorem takes_branchBody :
    Takes (fun taken source rest => taken = '{' :: source.text ++ ['}'] ∧
        spanGroup '{' '}' 0 .outside (source.text ++ '}' :: rest) =
          some source.text)
      branchBody := by
  refine .getThen fun seen => (takes_readGroup rfl rfl).returning.mono ?_
  rintro taken source rest ⟨text, rfl, whole, found⟩
  exact ⟨whole, found⟩

/-- `taken` is a body in braces, and nothing but that body is chosen. -/
def IsBody (taken : Text) (chosen : Option Source) (rest : Text) : Prop :=
  ∃ body, taken = '{' :: body ++ ['}'] ∧
    spanGroup '{' '}' 0 .outside (body ++ '}' :: rest) = some body ∧
    ∀ source, chosen = some source → source.text = body

private theorem isBranch_of_body {condition body rest : Text}
    (span : condition = Nesting.spanUntil ['{'].contains {}
      (condition ++ ('{' :: body ++ ['}'] ++ rest)))
    (closed : (Nesting.after {} condition).checkClosed = .ok ())
    (cut : spanGroup '{' '}' 0 .outside (body ++ '}' :: rest) = some body) :
    IsBranch condition body (condition ++ ('{' :: body ++ ['}'])) rest := by
  refine ⟨by simp, Nesting.shut_of_checkClosed closed, cut, ?_⟩
  have inner : ('{' :: body ++ ['}']) ++ rest =
      '{' :: (body ++ '}' :: rest) := by simp
  unfold splitBranch?
  rw [List.append_assoc, ← span]
  dsimp only
  rw [List.drop_left, inner]
  simp [cut]

theorem takes_branch (environment : Environment) (asked : Bool) :
    Takes (fun taken chosen rest => ∃ condition body,
      IsBranch condition body taken rest ∧
        ∀ source, chosen = some source → source.text = body)
      (branch environment asked) := by
  have body (holds : Bool) :
      Takes IsBody
        (do
          let body ← branchBody; return if holds then some body else none) := by
    refine takes_branchBody.returning.mono ?_
    rintro taken chosen rest ⟨source, rfl, whole, found⟩
    refine ⟨source.text, whole, found, fun other same => ?_⟩
    cases holds with
    | true => exact (Option.some.inj same) ▸ rfl
    | false => simp at same
  refine @Takes.bind _ _ _ (fun _ => IsBody) _ _ _ (takes_readUntil _)
    (fun condition => .getThen fun seen => .guarded ?_) ?_
  · dsimp only
    split
    · exact .afterResolved (resolved_resolveValue environment _) fun text =>
        .afterResolved (resolved_evaluateCondition text) body
    · exact .afterResolved (.pure _) body
  · rintro condition value taken chosen rest ⟨rfl, span, closed⟩
      ⟨body, rfl, cut, chosenBody⟩
    exact ⟨value, body, isBranch_of_body span closed cut, chosenBody⟩

private theorem elseConditions_cons {fuel : Nat}
    {text afterElse afterIf condition rest : Text}
    (word : afterWord? "@else".toList (text.dropWhile isSpace) = some afterElse)
    (conditional : afterWord? "if".toList (afterElse.dropWhile isSpace) =
      some afterIf)
    (split : splitBranch? afterIf = some (condition, rest)) :
    elseConditions (fuel + 1) text = condition :: elseConditions fuel rest := by
  rw [elseConditions, word]
  simp only [conditional, split]

/-- What the branches after a first one leave of a choice: it stays as it was,
or one of their bodies is chosen. -/
inductive Settles (chosen result : Option Source)
    (taken rest : Text) : Prop where
  | stays (same : result = chosen) (kept : Contained taken)
  | chooses {lead tail : Text} {source : Source} (same : result = some source)
      (whole : taken = lead ++ '{' :: source.text ++ '}' :: tail)
      (shut : Shut lead)
      (cut : spanGroup '{' '}' 0 .outside (source.text ++ '}' :: tail ++ rest) =
        some source.text)
      (kept : Contained tail)

theorem Settles.after {chosen result : Option Source} {lead taken rest : Text}
    (settles : Settles chosen result taken rest) (kept : Contained lead) :
    Settles chosen result (lead ++ taken) rest := by
  cases settles with
  | stays same later => exact .stays same (kept.append later)
  | @chooses between tail source same whole shut cut later =>
      refine @Settles.chooses _ _ _ _ (lead ++ between) _ _ same ?_
        (kept.shut.append shut) cut later
      rw [whole]
      simp

/-- The body of a branch is chosen, and what follows keeps the choice. -/
theorem IsBranch.settles {condition body taken rest : Text} {source : Source}
    {later : Text} (isBranch : IsBranch condition body taken (later ++ rest))
    (text : source.text = body) (kept : Contained later) :
    Settles none (some source) (taken ++ later) rest := by
  subst text
  refine @Settles.chooses _ _ _ _ condition later source rfl ?_
    isBranch.shut ?_ kept
  · rw [isBranch.whole]
    simp
  · rw [List.append_assoc, List.cons_append]
    exact isBranch.cut

theorem IsBranch.contained {condition body taken rest : Text}
    (isBranch : IsBranch condition body taken rest)
    (kept : Bracing.contains {} condition = true) : Contained taken := by
  rw [isBranch.whole, List.append_assoc]
  exact Contained.append ⟨isBranch.shut, kept⟩ (contained_group isBranch.cut)

/-- A branch in front of others: its body is chosen unless there was one
before. -/
theorem IsBranch.precedes {condition body taken later rest : Text}
    {chosen own result : Option Source}
    (isBranch : IsBranch condition body taken (later ++ rest))
    (kept : Bracing.contains {} condition = true)
    (text : ∀ source, own = some source → source.text = body)
    (settles : Settles (chosen.or own) result later rest) :
    Settles chosen result (taken ++ later) rest := by
  have keptBranch := isBranch.contained kept
  cases settles with
  | chooses same whole shut cut kept =>
      exact Settles.after (.chooses same whole shut cut kept) keptBranch
  | stays same keptLater =>
      cases chosen with
      | some earlier => exact .stays same (keptBranch.append keptLater)
      | none =>
          cases own with
          | none => exact .stays same (keptBranch.append keptLater)
          | some source =>
              rw [same]
              exact isBranch.settles (text source rfl) keptLater

/-- The body of a last `@else` is chosen unless there was one before. -/
theorem Settles.last {chosen : Option Source} {source : Source}
    {taken rest : Text} (whole : taken = '{' :: source.text ++ ['}'])
    (cut : spanGroup '{' '}' 0 .outside (source.text ++ '}' :: rest) =
      some source.text) :
    Settles chosen (chosen.or (some source)) taken rest := by
  cases chosen with
  | some earlier =>
      refine .stays rfl ?_
      rw [whole]
      exact contained_group cut
  | none =>
      refine @Settles.chooses _ _ _ _ [] [] source rfl whole shut_nil
        ?_ contained_nil
      rw [List.append_assoc]
      exact cut

private theorem contained_word {word : Text}
    (plain : ∀ c ∈ word, isNameChar c = true ∨ c = '@') :
    Contained word := by
  refine contained_of_plain fun c member => ?_
  rcases plain c member with name | rfl
  · exact plain_of_isNameChar name
  · decide

theorem dropWhile_of_takeWhile {kind : Char → Bool} {taken rest : Text}
    (all : taken = (taken ++ rest).takeWhile kind) :
    (taken ++ rest).dropWhile kind = rest := by
  have whole : (taken ++ rest).takeWhile kind ++ (taken ++ rest).dropWhile
      kind = taken ++ rest :=
    List.takeWhile_append_dropWhile
  rw [← all] at whole
  exact List.append_cancel_left whole

/-- A look for a word after white space. -/
theorem nextWord_ok {α : Type} {word : Text} {next : Bool → Compile α}
    {state final : State} {result : α}
    (plain : ∀ c ∈ word, isNameChar c = true ∨ c = '@')
    (ready : state.cursor.Ready) (succeeded : (do
      reading Reader.skipSpace
      let found ← reading (Reader.skipWord? word)
      next found) state = .ok result final) :
    ∃ taken rest found middle, Passed state middle taken rest ∧
      Contained taken ∧
      next found middle = .ok result final ∧
      (found = true → afterWord? word ((taken ++ rest).dropWhile isSpace) =
        some rest) := by
  obtain ⟨_, spaced, skipped, succeeded⟩ := bind_ok succeeded
  obtain ⟨found, middle, looked, succeeded⟩ := bind_ok succeeded
  obtain ⟨spaces, _, passedSpaces, blank⟩ := takes_skipSpace _ _ _ ready skipped
  obtain ⟨taken, rest, passedWord, effect⟩ :=
    takes_skipWord? word _ _ _ (passedSpaces.ready ready) looked
  have plainSpaces : Contained spaces := contained_of_plain (plain_space blank)
  refine ⟨spaces ++ taken, rest, found, middle,
    passedSpaces.trans passedWord ready, ?_, succeeded, ?_⟩
  · rcases effect with ⟨-, same, -⟩ | ⟨-, same, -⟩
    · rw [same]
      exact plainSpaces.append (contained_word plain)
    · rw [same]
      exact plainSpaces.append contained_nil
  · rintro rfl
    rcases effect with ⟨-, -, after⟩ | ⟨impossible, -, -⟩
    · have same := passedWord.pending
      rw [passedSpaces.rest_eq ready] at same
      rw [same] at blank
      rw [List.append_assoc, dropWhile_of_takeWhile blank, after]
    · simp at impossible

private theorem takes_elseBranches (environment : Environment) (fuel : Nat)
    (chosen : Option Source) :
    Takes (fun taken result rest =>
        (∀ condition ∈ elseConditions fuel (taken ++ rest),
          Bracing.contains {} condition = true) →
            Settles chosen result taken rest)
      (elseBranches environment fuel chosen) := by
  induction fuel generalizing chosen with
  | zero => exact .pure fun _ _ => .stays rfl contained_nil
  | succ fuel ih =>
      intro state result final ready succeeded
      obtain ⟨first, afterFirst, another, middle, passedFirst, keptFirst,
          succeeded, foundFirst⟩ :=
        nextWord_ok (by decide) ready succeeded
      cases another with
      | false =>
          simp only [Bool.false_eq_true, if_false, pure_apply,
            EStateM.Result.ok.injEq] at succeeded
          obtain ⟨rfl, rfl⟩ := succeeded
          exact ⟨first, afterFirst, passedFirst, fun _ => .stays rfl keptFirst⟩
      | true =>
          simp only [if_true] at succeeded
          obtain ⟨second, afterSecond, conditional, later, passedSecond,
              keptSecond, succeeded,
            foundSecond⟩ := nextWord_ok (by decide) (passedFirst.ready ready)
              succeeded
          have passedWords := passedFirst.trans passedSecond ready
          have keptWords := keptFirst.append keptSecond
          cases conditional with
          | false =>
              simp only [Bool.false_eq_true, if_false] at succeeded
              obtain ⟨source, last, bodied, returned⟩ := bind_ok succeeded
              obtain ⟨taken, rest, passedBody, whole, cut⟩ :=
                takes_branchBody later source last
                  (passedWords.ready ready) bodied
              simp only [pure_apply, EStateM.Result.ok.injEq] at returned
              obtain ⟨rfl, rfl⟩ := returned
              exact ⟨first ++ second ++ taken, rest,
                passedWords.trans passedBody ready, fun _ =>
                  (Settles.last whole cut).after keptWords⟩
          | true =>
              simp only [if_true] at succeeded
              obtain ⟨body, branched, taking, succeeded⟩ := bind_ok succeeded
              obtain ⟨branch, afterBranch, passedBranch, condition, text,
                  isBranch, chosenBody⟩ :=
                takes_branch environment _ later body branched
                  (passedWords.ready ready) taking
              have passedThird := passedWords.trans passedBranch ready
              obtain ⟨others, rest, passedOthers, settles⟩ :=
                ih (chosen.or body) branched result final
                  (passedThird.ready ready) succeeded
              refine ⟨first ++ second ++ branch ++ others, rest,
                passedThird.trans passedOthers ready, fun contained => ?_⟩
              obtain rfl : afterFirst = second ++ afterSecond := by
                rw [← passedFirst.rest_eq ready, passedSecond.pending]
              obtain rfl : afterSecond = branch ++ afterBranch := by
                rw [← passedWords.rest_eq ready, passedBranch.pending]
              obtain rfl : afterBranch = others ++ rest := by
                rw [← passedThird.rest_eq ready, passedOthers.pending]
              have conditions : elseConditions (fuel + 1)
                  (first ++ second ++ branch ++ others ++ rest) =
                  condition :: elseConditions fuel (others ++ rest) := by
                simp only [List.append_assoc]
                exact elseConditions_cons (foundFirst rfl) (foundSecond rfl)
                  isBranch.split
              rw [conditions] at contained
              rw [List.append_assoc]
              refine
                (isBranch.precedes (contained condition (by simp)) chosenBody
                  ?_).after keptWords
              exact settles fun other member =>
                contained other (by simp [member])

theorem IsBranch.shut_taken {condition body taken rest : Text}
    (isBranch : IsBranch condition body taken rest) : Shut taken := by
  rw [isBranch.whole, List.append_assoc]
  exact isBranch.shut.append (shut_group rfl rfl isBranch.cut)

theorem Settles.shut {chosen result : Option Source} {taken rest : Text}
    (settles : Settles chosen result taken rest) : Shut taken := by
  cases settles with
  | stays same kept => exact kept.shut
  | @chooses lead tail source same whole shut cut kept =>
      have group : Shut ('{' :: source.text ++ ['}']) := by
        rw [List.append_assoc, List.cons_append] at cut
        exact shut_group rfl rfl cut
      have parts : taken = lead ++ (('{' :: source.text ++ ['}']) ++ tail) := by
        rw [whole]
        simp
      rw [parts]
      exact shut.append (group.append kept.shut)

/-- A body that was chosen, in a first branch or a later one, is put in. -/
theorem Settles.progress {condition body branch others rest : Text}
    {first : Option Source} {source : Source} {before after : State}
    (settles : Settles first (some source) others rest)
    (isBranch : IsBranch condition body branch (others ++ rest))
    (chosenBody : ∀ source, first = some source → source.text = body)
    (pending : before.cursor.pending = branch ++ others ++ rest)
    (inserted :
      (before.cursor.advanceBy (branch ++ others).length).insert source =
      .ok after.cursor) : Progress before after := by
  cases settles with
  | stays same kept =>
      have text := chosenBody source same.symm
      have whole : branch ++ others =
          condition ++ '{' :: source.text ++ '}' :: others := by
        rw [isBranch.whole, text]
        simp
      rw [whole] at pending inserted
      refine .chose pending isBranch.shut ?_ kept inserted
      rw [text, List.append_assoc, List.cons_append]
      exact isBranch.cut
  | @chooses lead tail other same split shut cut kept =>
      obtain rfl : source = other := Option.some.inj same
      have whole : branch ++ others =
          (branch ++ lead) ++ '{' :: source.text ++ '}' :: tail := by
        rw [split]
        simp
      rw [whole] at pending inserted
      exact .chose pending (isBranch.shut_taken.append shut) cut kept inserted

theorem progress_conditionDirective {environment : Environment}
    {state final : State} (ready : state.cursor.Ready)
    (orderly : ∀ condition rest,
      splitBranch? state.cursor.pending = some (condition, rest) →
      ∀ other ∈ elseConditions (rest.length + 1) rest,
        Bracing.contains {} other = true)
    (succeeded : conditionDirective environment state = .ok () final) :
    Progress state final := by
  obtain ⟨first, middle, branched, succeeded⟩ := bind_ok succeeded
  obtain ⟨branch, between, passedBranch, condition, body, isBranch,
      chosenBody⟩ :=
    takes_branch environment true state first middle ready branched
  obtain ⟨_, _, seen, succeeded⟩ := bind_ok succeeded
  simp only [get_apply, EStateM.Result.ok.injEq] at seen
  obtain ⟨rfl, rfl⟩ := seen
  obtain ⟨chosen, later, elsed, succeeded⟩ := bind_ok succeeded
  rw [passedBranch.rest_eq ready] at elsed
  obtain ⟨others, rest, passedOthers, settling⟩ :=
    takes_elseBranches environment _ first _ chosen later
      (passedBranch.ready ready) elsed
  obtain rfl : between = others ++ rest := by
    rw [← passedBranch.rest_eq ready, passedOthers.pending]
  have passed := passedBranch.trans passedOthers ready
  have settles := settling (orderly condition (others ++ rest)
    (by rw [passedBranch.pending]; exact isBranch.split))
  have shut : Shut (branch ++ others) := isBranch.shut_taken.append settles.shut
  have some : branch ++ others ≠ [] := by simp [isBranch.whole]
  split at succeeded
  · simp only [pure_apply, EStateM.Result.ok.injEq] at succeeded
    obtain ⟨-, rfl⟩ := succeeded
    exact .passed passed some shut
  · rename_i source
    split at succeeded
    · simp only [pure_apply, EStateM.Result.ok.injEq] at succeeded
      obtain ⟨-, rfl⟩ := succeeded
      exact .passed passed some shut
    · have inserted := splice_ok succeeded
      rw [passed.cursor] at inserted
      exact settles.progress isBranch chosenBody passed.pending inserted

/-- The text of an expansion is the body of a registered mixin with its
brace. -/
theorem expansion_ok {environment : Environment} {name : Text}
    {list : Option Text} {state final : State}
    (succeeded : expansion environment name list state = .ok () final) :
    ∃ mixin ∈ state.mixins.toList, ∃ source, source.text = mixin.body ++ ['}'] ∧
      state.cursor.insert source = .ok final.cursor := by
  obtain ⟨arguments, resolved, resolving, succeeded⟩ := bind_ok succeeded
  obtain ⟨_, recorded, recording, succeeded⟩ := bind_ok succeeded
  obtain ⟨_, commented, commenting, succeeded⟩ := bind_ok succeeded
  have first := (resolved_resolveArguments environment list).of_ok resolving
  have second := (resolved_record _).of_ok recording
  have third : commented.cursor = recorded.cursor ∧
      commented.mixins = recorded.mixins := by
    simp only [comment, modify_apply, EStateM.Result.ok.injEq] at commenting
    obtain ⟨-, rfl⟩ := commenting
    split
    · exact ⟨rfl, rfl⟩
    · exact ⟨rfl, rfl⟩
  have cursor : commented.cursor = state.cursor := by
    rw [third.1, second.cursor, first.cursor]
  have mixins : commented.mixins = state.mixins := by
    rw [third.2, second.mixins, first.mixins]
  simp only [bind_apply, get_apply] at succeeded
  cases expanded :
    commented.mixins.expanded name arguments commented.cursor.file
      commented.scopes with
  | error error => simp [expanded, check] at succeeded
  | ok result =>
      obtain ⟨expansion, later, bound⟩ := result
      obtain ⟨mixin, found, text, -⟩ := Mixins.expanded_ok expanded
      have registered := Mixins.mem_of_get? found
      simp only [expanded, check, pure_apply, modify_apply, record] at succeeded
      have inserted := splice_ok succeeded
      exact ⟨mixin, mixins ▸ registered, _, text, cursor ▸ inserted⟩

theorem progress_includeDirective {environment : Environment}
    {state final : State} (ready : state.cursor.Ready)
    (succeeded : includeDirective environment state = .ok () final) :
    Progress state final := by
  rw [includeDirective_eq] at succeeded
  obtain ⟨name, named, naming, succeeded⟩ := bind_ok succeeded
  obtain ⟨list, listed, listing, succeeded⟩ := bind_ok succeeded
  obtain ⟨_, ended, ending, succeeded⟩ := bind_ok succeeded
  obtain ⟨first, _, passedName, looseName, some⟩ :=
    takes_mixinName state name named ready naming
  obtain ⟨second, _, passedList, looseList⟩ :=
    loose_argumentList? named list listed (passedName.ready ready) listing
  have passedBoth := passedName.trans passedList ready
  obtain ⟨third, rest, passedEnd, looseEnd⟩ :=
    loose_endInclude name listed _ ended (passedBoth.ready ready) ending
  have passed := passedBoth.trans passedEnd ready
  have quiet : Quiet state ended := trans_of Quiet
    (trans_of Quiet (quiet_mixinName.of_ok naming)
      (quiet_argumentList?.of_ok listing))
    ((quiet_endInclude name).of_ok ending)
  obtain ⟨_, _, seen, succeeded⟩ := bind_ok succeeded
  simp only [get_apply, EStateM.Result.ok.injEq] at seen
  obtain ⟨rfl, rfl⟩ := seen
  obtain ⟨_, opened, opening, succeeded⟩ := bind_ok succeeded
  simp only [openBlock, modify_apply, EStateM.Result.ok.injEq] at opening
  obtain ⟨-, rfl⟩ := opening
  obtain ⟨mixin, registered, source, text, inserted⟩ := expansion_ok succeeded
  refine .included passed.pending (by simp [some]) ?_
    (quiet.mixins ▸ registered) text ?_
  · exact chains_loose.append (chains_loose.append looseName looseList) looseEnd
  · rw [← passed.cursor]
    exact inserted

/-- Text was passed, and more work took further text. -/
theorem Progress.of_shut {α : Type} {action : Compile α}
    {before middle final : State} {value : α} {taken rest : Text}
    (passed : Passed before middle taken rest) (some : taken ≠ [])
    (shut : Shut taken) (ready : before.cursor.Ready)
    (takes : Takes (fun taken _ _ => Shut taken) action)
    (succeeded : action middle = .ok value final) : Progress before final := by
  obtain ⟨later, _, passedLater, shutLater⟩ :=
    takes middle value final (passed.ready ready) succeeded
  exact .passed (passed.trans passedLater ready) (by simp [some])
    (shut.append shutLater)

private theorem afterWord?_name {word rest : Text} (lead : Text)
    (word_eq : word = (word ++ rest).takeWhile isNameChar) :
    afterWord? (lead ++ word) (lead ++ (word ++ rest)) = some rest := by
  have whole :
      (lead ++ word).isPrefixOf? (lead ++ (word ++ rest)) = some rest :=
    List.isPrefixOf?_eq_some_iff_append_eq.mpr (List.append_assoc ..)
  rw [afterWord?, whole]
  cases rest with
  | nil => rfl
  | cons c rest =>
      have other : isNameChar c = false := by
        rw [List.takeWhile_append_of_pos fun d member => by
          rw [word_eq] at member
          exact List.mem_takeWhile_imp member] at word_eq
        have none := List.append_right_eq_self.mp word_eq.symm
        simpa using none
      simp [other]

theorem progress_directive {environment : Environment} {state final : State}
    {others : Text}
    (nothing : ∀ path, (environment.loader.fetch path).content = none)
    (ready : state.cursor.Ready) (starts : state.cursor.pending = '@' :: others)
    (orderly : state.Orderly)
    (succeeded : directive environment state = .ok () final) :
    Progress state final := by
  obtain ⟨_, advanced, advancing, succeeded⟩ := bind_ok succeeded
  obtain ⟨name, named, naming, succeeded⟩ := bind_ok succeeded
  obtain ⟨_, spaced, spacing, succeeded⟩ := bind_ok succeeded
  obtain ⟨mark, afterMark, passedMark, taking⟩ :=
    takes_advance state _ advanced ready advancing
  rw [← passedMark.pending, starts] at taking
  obtain ⟨word, afterName, passedName, rfl, whole⟩ :=
    takes_readName advanced name named (passedMark.ready ready) naming
  have passedBoth := passedMark.trans passedName ready
  obtain ⟨spaces, rest, passedSpaces, blank⟩ :=
    takes_skipSpace named _ spaced (passedBoth.ready ready) spacing
  have passed := passedBoth.trans passedSpaces ready
  have loose : Loose (mark ++ name ++ spaces) := by
    rw [taking]
    exact chains_loose.append (chains_loose.append ⟨shut_singleton rfl, by simp⟩
      (loose_of_plain (plain_name whole))) (loose_of_plain (plain_space blank))
  have some : mark ++ name ++ spaces ≠ [] := by simp [taking]
  have quiet : Quiet state spaced := trans_of Quiet
    (trans_of Quiet ((quiet_reading _).of_ok advancing)
      ((quiet_reading _).of_ok naming))
    ((quiet_reading _).of_ok spacing)
  simp only [bind_apply, get_apply] at succeeded
  split at succeeded
  · split at succeeded
    · simp [form] at succeeded
    · exact .of_shut passed some loose.shut ready shut_mixinDirective succeeded
  · split at succeeded
    · split at succeeded
      · exact .after passed loose ready quiet.mixins
          (progress_includeDirective (passed.ready ready) succeeded)
      · simp [form] at succeeded
    · split at succeeded
      · exact .of_shut passed some loose.shut ready
          (shut_importDirective environment nothing) succeeded
      · split at succeeded
        · rename_i conditional
          refine .after passed loose ready quiet.mixins
            (progress_conditionDirective (passed.ready ready) ?_ succeeded)
          intro condition following split other member
          refine orderly other ?_
          obtain rfl : name = "if".toList := by simpa using conditional
          obtain rfl : afterName = spaces ++ rest := by
            rw [← passedBoth.rest_eq ready, passedSpaces.pending]
          obtain rfl : afterMark = "if".toList ++ (spaces ++ rest) := by
            rw [← passedMark.rest_eq ready, passedName.pending]
          rw [passed.rest_eq ready] at split
          have word :
              afterWord? "@if".toList (state.cursor.pending.dropWhile isSpace) =
              Option.some (spaces ++ rest) := by
            rw [passedMark.pending, taking]
            exact afterWord?_name ['@'] whole
          rw [State.elseConditions, word]
          simp only [dropWhile_of_takeWhile blank, split]
          exact member
        · simp at succeeded

theorem progress_step {environment : Environment} {state next : State}
    (nothing : ∀ path, (environment.loader.fetch path).content = none)
    (ready : state.cursor.Ready) (orderly : state.Orderly)
    (succeeded : step environment state = .ok true next) :
    Progress state next := by
  obtain ⟨_, spaced, spacing, succeeded⟩ := bind_ok succeeded
  obtain ⟨spaces, rest, passed, blank⟩ :=
    takes_skipSpace state _ spaced ready spacing
  have loose : Loose spaces := loose_of_plain (plain_space blank)
  have mixins := ((quiet_reading _).of_ok spacing).mixins
  have readySpaced := passed.ready ready
  have head := Cursor.current_eq_head? readySpaced
  have orderlySpaced : spaced.Orderly := by
    have same : spaced.elseConditions = state.elseConditions := by
      have dropped : spaced.cursor.pending =
          state.cursor.pending.dropWhile isSpace := by
        rw [passed.rest_eq ready, passed.pending, dropWhile_of_takeWhile blank]
      rw [State.elseConditions, State.elseConditions, dropped,
        List.dropWhile_idempotent]
    rw [State.Orderly, same]
    exact orderly
  refine .after passed loose ready mixins ?_
  obtain ⟨_, _, seen, succeeded⟩ := bind_ok succeeded
  simp only [get_apply, EStateM.Result.ok.injEq] at seen
  obtain ⟨rfl, rfl⟩ := seen
  generalize first : spaced.cursor.current = current at succeeded head
  split at succeeded
  · obtain ⟨_, _, seen, succeeded⟩ := bind_ok succeeded
    split at succeeded
    · simp at succeeded
    · simp [form] at succeeded
  · obtain ⟨_, closed, closing, returned⟩ := bind_ok succeeded
    obtain ⟨others, starts⟩ := List.head?_eq_some_iff.mp head.symm
    simp only [pure_apply, EStateM.Result.ok.injEq, true_and] at returned
    subst returned
    have passed : Passed spaced closed ['}'] others :=
      ⟨starts, closeBlock_ok closing⟩
    exact .passed passed (by simp) (shut_singleton rfl)
  · obtain ⟨others, starts⟩ := List.head?_eq_some_iff.mp head.symm
    obtain ⟨taken, rest, passed, eats⟩ :=
      eats_after_advance (fun _ => .pure fun _ => shut_nil) spaced true next
        readySpaced succeeded
    obtain ⟨shut, some⟩ :=
      eats ';' others (by rw [← passed.pending, starts]) rfl
    exact .passed passed some shut
  · obtain ⟨_, defined, defining, returned⟩ := bind_ok succeeded
    obtain ⟨others, starts⟩ := List.head?_eq_some_iff.mp head.symm
    simp only [pure_apply, EStateM.Result.ok.injEq, true_and] at returned
    subst returned
    obtain ⟨taken, rest, passed, eats⟩ :=
      eats_variableStatement environment spaced _ defined readySpaced defining
    obtain ⟨shut, some⟩ :=
      eats '$' others (by rw [← passed.pending, starts]) rfl
    exact .passed passed some shut
  · obtain ⟨_, done, doing, returned⟩ := bind_ok succeeded
    obtain ⟨others, starts⟩ := List.head?_eq_some_iff.mp head.symm
    simp only [pure_apply, EStateM.Result.ok.injEq, true_and] at returned
    subst returned
    exact progress_directive nothing readySpaced starts orderlySpaced doing
  · rename_i c noBrace noSemicolon _ _
    obtain ⟨_, done, doing, returned⟩ := bind_ok succeeded
    obtain ⟨others, starts⟩ := List.head?_eq_some_iff.mp head.symm
    simp only [pure_apply, EStateM.Result.ok.injEq, true_and] at returned
    subst returned
    obtain ⟨taken, rest, passed, shut, eats⟩ :=
      eats_statement environment spaced _ done readySpaced doing
    have some := eats c others (by rw [← passed.pending, starts])
      (fun same => noSemicolon (same ▸ rfl)) (fun same => noBrace (same ▸ rfl))
    exact .passed passed some shut

end Stylesheet
