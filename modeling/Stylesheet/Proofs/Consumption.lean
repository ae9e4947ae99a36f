import Mathlib.Data.List.Basic
import Mathlib.Data.List.TakeWhile
import Stylesheet.Proofs.Bracing
import Stylesheet.Proofs.Footprint
import Stylesheet.Proofs.Pending

/-!
# What work takes from the pending text

Successful work takes a text from the front of what is pending and leaves the
rest (`Takes`).  Strings that begin in what is taken end there (`Shut`), and an
inclusion does not take a closing brace (`Loose`).
-/

namespace Stylesheet

/-- `taken` was pending in front of `rest`, and the cursor has passed it. -/
structure Passed (before after : State) (taken rest : Text) : Prop where
  pending : before.cursor.pending = taken ++ rest
  cursor : after.cursor = before.cursor.advanceBy taken.length

theorem Passed.refl (state : State) :
    Passed state state [] state.cursor.pending :=
  ⟨rfl, rfl⟩

theorem Passed.ready {before after : State} {taken rest : Text}
    (passed : Passed before after taken rest) (ready : before.cursor.Ready) :
    after.cursor.Ready := by
  rw [passed.cursor]
  exact Cursor.ready_advanceBy ready _

theorem Passed.rest_eq {before after : State} {taken rest : Text}
    (passed : Passed before after taken rest) (ready : before.cursor.Ready) :
    after.cursor.pending = rest := by
  rw [passed.cursor, Cursor.pending_advanceBy ready, passed.pending,
    List.drop_left]

theorem Passed.trans {before middle after : State}
    {first second between rest : Text}
    (left : Passed before middle first between)
    (right : Passed middle after second rest) (ready : before.cursor.Ready) :
    Passed before after (first ++ second) rest := by
  have same : between = second ++ rest := by
    rw [← left.rest_eq ready, right.pending]
  refine ⟨by rw [left.pending, same, List.append_assoc], ?_⟩
  rw [right.cursor, left.cursor, List.length_append, Cursor.advanceBy_add]

/-- If `action` succeeds, it takes a text from the front of the pending one;
`effect` relates that text, the value, and what is left. -/
def Takes {α : Type} (effect : Text → α → Text → Prop)
    (action : Compile α) : Prop :=
  ∀ state value after, state.cursor.Ready → action state = .ok value after →
    ∃ taken rest, Passed state after taken rest ∧ effect taken value rest

namespace Takes

variable {α β : Type}

theorem bind {first : Text → α → Text → Prop}
    {second : α → Text → β → Text → Prop} {whole : Text → β → Text → Prop}
    {action : Compile α} {next : α → Compile β} (left : Takes first action)
    (right : ∀ value, Takes (second value) (next value))
    (compose : ∀ {before value after result rest},
      first before value (after ++ rest) →
      second value after result rest → whole (before ++ after) result rest) :
    Takes whole (action >>= next) := by
  intro state result final ready succeeded
  obtain ⟨value, middle, done, succeeded⟩ := bind_ok succeeded
  obtain ⟨before, between, leftPassed, leftEffect⟩ :=
    left state value middle ready done
  obtain ⟨later, rest, rightPassed, rightEffect⟩ :=
    right value middle result final (leftPassed.ready ready) succeeded
  have same : between = later ++ rest := by
    rw [← leftPassed.rest_eq ready, rightPassed.pending]
  rw [same] at leftEffect
  exact ⟨before ++ later, rest, leftPassed.trans rightPassed ready,
    compose leftEffect rightEffect⟩

theorem mono {strong weak : Text → α → Text → Prop} {action : Compile α}
    (takes : Takes strong action)
    (weaken : ∀ {taken value rest}, strong taken value rest →
      weak taken value rest) :
    Takes weak action := by
  intro state value after ready succeeded
  obtain ⟨taken, rest, passed, effect⟩ :=
    takes state value after ready succeeded
  exact ⟨taken, rest, passed, weaken effect⟩

theorem pure {effect : Text → α → Text → Prop} {value : α}
    (nothing : ∀ rest, effect [] value rest) :
    Takes effect (Pure.pure value) := by
  intro state result after ready succeeded
  simp only [pure_apply, EStateM.Result.ok.injEq] at succeeded
  obtain ⟨rfl, rfl⟩ := succeeded
  exact ⟨[], state.cursor.pending, .refl state, nothing _⟩

theorem throw {effect : Text → α → Text → Prop} (error : Error) :
    Takes effect (MonadExcept.throw error) := by
  intro state value after ready succeeded
  simp at succeeded

theorem form {effect : Text → α → Text → Prop} (fault : FormFault) :
    Takes effect (Compile.form fault) :=
  throw _

/-- What follows a look at the state may use what was pending there. -/
theorem getAt {effect : Text → α → Text → Prop} {next : State → Compile α}
    (following : ∀ seen, seen.cursor.Ready →
      Takes (fun taken value rest => seen.cursor.pending = taken ++ rest →
        effect taken value rest) (next seen)) :
        Takes effect (get >>= next) := by
  intro state value after ready succeeded
  obtain ⟨taken, rest, passed, holds⟩ :=
    following state ready state value after ready succeeded
  exact ⟨taken, rest, passed, holds passed.pending⟩

theorem getThen {effect : Text → α → Text → Prop} {next : State → Compile α}
    (following : ∀ seen, Takes effect (next seen)) :
    Takes effect (get >>= next) := by
  intro state value after ready succeeded
  exact following state state value after ready succeeded

/-- Resolving values takes nothing. -/
theorem of_resolved {action : Compile α}
    (resolved : Always Compile.Resolved action) :
    Takes (fun taken _ _ => taken = []) action := by
  intro state value after ready succeeded
  exact
    ⟨[], state.cursor.pending, ⟨rfl, (resolved.of_ok succeeded).cursor⟩, rfl⟩

/-- A change that leaves the cursor alone takes nothing. -/
theorem of_still {change : State → State}
    (still : ∀ state, (change state).cursor = state.cursor) :
    Takes (fun taken _ _ => taken = []) (modify change) := by
  intro state value after ready succeeded
  simp only [modify_apply, EStateM.Result.ok.injEq] at succeeded
  obtain ⟨-, rfl⟩ := succeeded
  exact ⟨[], state.cursor.pending, ⟨rfl, still state⟩, rfl⟩

theorem afterResolved {effect : Text → β → Text → Prop} {action : Compile α}
    {next : α → Compile β} (resolved : Always Compile.Resolved action)
    (following : ∀ value, Takes effect (next value)) :
    Takes effect (action >>= next) :=
  (of_resolved resolved).bind following fun nothing holds => by
    rw [nothing]
    exact holds

/-- Something that is resolved on a condition, before the rest. -/
theorem afterResolvedIf {effect : Text → α → Text → Prop} {condition : Prop}
    [Decidable condition] {action : Compile PUnit} {next : PUnit → Compile α}
    (resolved : Always Compile.Resolved action)
    (following : Takes effect (next ⟨⟩)) :
    Takes effect (if condition then action >>= next else next ⟨⟩) := by
  split
  · exact afterResolved resolved fun _ => following
  · exact following

theorem afterStill {effect : Text → β → Text → Prop} {change : State → State}
    {next : PUnit → Compile β}
    (still : ∀ state, (change state).cursor = state.cursor)
    (following : ∀ value, Takes effect (next value)) :
    Takes effect (modify change >>= next) :=
  (of_still still).bind following fun nothing holds => by
    rw [nothing]
    exact holds

/-- A test that fails ends the work. -/
theorem guarded {effect : Text → α → Text → Prop} {condition : Prop}
    [Decidable condition] {fault : FormFault} {next : PUnit → Compile α}
    (following : Takes effect (next ⟨⟩)) :
    Takes effect
      (if condition then Compile.form fault >>= next else next ⟨⟩) := by
  split
  · intro state value after ready succeeded
    obtain ⟨_, _, failed, _⟩ := bind_ok succeeded
    simp [Compile.form] at failed
  · exact following

/-- A function of the value, returned at the end. -/
theorem returning {effect : Text → α → Text → Prop} {action : Compile α}
    {result : α → β} (takes : Takes effect action) :
    Takes (fun taken value rest => ∃ first, value = result first ∧
      effect taken first rest)
      (action >>= fun value => Pure.pure (result value)) := by
  intro state value after ready succeeded
  obtain ⟨first, middle, done, returned⟩ := bind_ok succeeded
  obtain ⟨taken, rest, passed, holds⟩ := takes state first middle ready done
  simp only [pure_apply, EStateM.Result.ok.injEq] at returned
  obtain ⟨rfl, rfl⟩ := returned
  exact ⟨taken, rest, passed, first, rfl, holds⟩

theorem of_reading {effect : Text → α → Text → Prop} {reader : Reader α}
    (passes : ∀ {cursor value after}, cursor.Ready →
      reader cursor = .ok value after →
      ∃ taken rest, cursor.pending = taken ++ rest ∧
        after = cursor.advanceBy taken.length ∧ effect taken value rest) :
    Takes effect (Compile.reading reader) := by
  intro state value after ready succeeded
  unfold Compile.reading at succeeded
  split at succeeded
  · rename_i result cursor read
    simp only [EStateM.Result.ok.injEq] at succeeded
    obtain ⟨rfl, rfl⟩ := succeeded
    obtain ⟨taken, rest, pending, moved, holds⟩ := passes ready read
    exact ⟨taken, rest, ⟨pending, moved⟩, holds⟩
  · simp at succeeded

end Takes

section Readers

open Compile

theorem takes_advance :
    Takes (fun taken _ rest => taken = (taken ++ rest).take 1)
      (reading (modify Cursor.advance)) := by
  refine .of_reading fun {cursor value after} ready read => ?_
  simp only [modify_apply, EStateM.Result.ok.injEq] at read
  obtain ⟨-, rfl⟩ := read
  cases pending : cursor.pending with
  | nil => exact ⟨[], [], rfl, cursor.advance_of_ended ready pending, rfl⟩
  | cons c rest => exact ⟨[c], rest, rfl, rfl, rfl⟩

theorem takes_expect (c : Char) :
    Takes (fun taken _ _ => taken = [c]) (reading (Cursor.expect c)) := by
  refine .of_reading fun {cursor value after} ready read => ?_
  unfold Cursor.expect at read
  split at read
  · rename_i standing
    simp only [EStateM.Result.ok.injEq] at read
    obtain ⟨-, rfl⟩ := read
    obtain ⟨rest, pending⟩ := cursor.pending_of_isAt ready standing
    exact ⟨[c], rest, pending, rfl, rfl⟩
  · simp at read

theorem takes_skipChar (c : Char) :
    Takes (fun taken _ _ => taken = [] ∨ taken = [c])
      (reading (Reader.skipChar c)) := by
  refine .of_reading fun {cursor value after} ready read => ?_
  simp only [Reader.skipChar, modify_apply, EStateM.Result.ok.injEq] at read
  obtain ⟨-, rfl⟩ := read
  split
  · rename_i standing
    obtain ⟨rest, pending⟩ := cursor.pending_of_isAt ready standing
    exact ⟨[c], rest, pending, rfl, .inr rfl⟩
  · exact ⟨[], cursor.pending, rfl, rfl, .inl rfl⟩

theorem takes_skipSpace :
    Takes (fun taken _ rest => taken = (taken ++ rest).takeWhile isSpace)
      (reading Reader.skipSpace) := by
  refine .of_reading fun {cursor value after} ready read => ?_
  simp only [Reader.skipSpace, modify_apply, EStateM.Result.ok.injEq] at read
  obtain ⟨-, rfl⟩ := read
  refine ⟨cursor.pending.takeWhile isSpace, cursor.pending.dropWhile isSpace,
    List.takeWhile_append_dropWhile.symm, Cursor.skipSpace_eq ready, ?_⟩
  rw [List.takeWhile_append_dropWhile]

theorem takes_readName :
    Takes (fun taken name rest => name = taken ∧
      taken = (taken ++ rest).takeWhile isNameChar)
      (reading Reader.readName) := by
  refine .of_reading fun {cursor value after} ready read => ?_
  simp only [Reader.readName, Reader.pass, bind_apply, get_apply,
    modify_apply, pure_apply, EStateM.Result.ok.injEq] at read
  obtain ⟨rfl, rfl⟩ := read
  refine
    ⟨cursor.pending.takeWhile isNameChar, cursor.pending.dropWhile isNameChar,
    List.takeWhile_append_dropWhile.symm, rfl, rfl, ?_⟩
  rw [List.takeWhile_append_dropWhile]

theorem takes_readUntil (stops : List Char) :
    Takes (fun taken text rest => text = taken ∧
        taken = Nesting.spanUntil stops.contains {} (taken ++ rest) ∧
        (Nesting.after {} taken).checkClosed = .ok ())
      (reading (Reader.readUntil stops)) := by
  refine .of_reading fun {cursor value after} ready read => ?_
  obtain ⟨rest, whole⟩ :=
    Nesting.spanUntil_prefix stops.contains {} cursor.pending
  simp only [Reader.readUntil, Reader.pass, bind_apply, get_apply, modify_apply]
    at read
  cases closed : (Nesting.after {}
      (Nesting.spanUntil stops.contains {} cursor.pending)).checkClosed with
  | ok value =>
      simp only [closed, pure_apply, EStateM.Result.ok.injEq] at read
      obtain ⟨rfl, rfl⟩ := read
      exact ⟨_, rest, whole, rfl, rfl, by rw [← whole], closed⟩
  | error error => simp [closed] at read

theorem takes_readGroup {opening closing : Char}
    (plainOpening : isQuote opening = false)
    (plainClosing : isQuote closing = false) :
    Takes (fun taken contents rest => taken = opening :: contents ++ [closing] ∧
        spanGroup opening closing 0 .outside (contents ++ closing :: rest) =
          some contents)
      (reading (Reader.readGroup opening closing)) := by
  refine .of_reading fun {cursor value after} ready read => ?_
  unfold Reader.readGroup at read
  simp only [bind_apply, Cursor.expect] at read
  by_cases standing : cursor.isAt opening = true
  · obtain ⟨inner, pending⟩ := cursor.pending_of_isAt ready standing
    have left : cursor.advance.pending = inner := by
      have moved := Cursor.pending_advanceBy ready 1
      rwa [pending, List.drop_succ_cons, List.drop_zero] at moved
    simp only [standing, if_true, get_apply, left] at read
    cases found : spanGroup opening closing 0 .outside inner with
    | none => simp [found, Reader.pass] at read
    | some contents =>
        simp only [found, Reader.pass, bind_apply, modify_apply, pure_apply,
          EStateM.Result.ok.injEq] at read
        obtain ⟨rfl, rfl⟩ := read
        obtain ⟨⟨rest, same⟩, -⟩ :=
          spanGroup_split plainOpening plainClosing found
        refine ⟨opening :: contents ++ [closing], rest, ?_, ?_, rfl,
          by rw [← same, found]⟩
        · rw [pending, same]
          simp
        · rw [show (opening :: contents ++ [closing]).length =
            1 + (contents.length + 1) by
            simp; omega, Cursor.advanceBy_add, Cursor.advanceBy_add]
          rfl
  · simp [standing] at read

/-- What follows a word, if it stands at the start of the text and no longer
name does. -/
def afterWord? (word text : Text) : Option Text :=
  match word.isPrefixOf? text with
  | none => none
  | some rest =>
      if (rest.head?.map isNameChar).getD false then none else some rest

theorem takes_skipWord? (word : Text) :
    Takes (fun taken found rest => found = true ∧ taken = word ∧
          afterWord? word (taken ++ rest) = some rest ∨
        found = false ∧ taken = [] ∧ afterWord? word rest = none)
      (reading (Reader.skipWord? word)) := by
  refine .of_reading fun {cursor value after} ready read => ?_
  simp only [Reader.skipWord?, bind_apply, get_apply] at read
  cases prefixed : word.isPrefixOf? cursor.pending with
  | none =>
      simp only [prefixed, pure_apply, EStateM.Result.ok.injEq] at read
      obtain ⟨rfl, rfl⟩ := read
      exact ⟨[], cursor.pending, rfl, rfl,
        .inr ⟨rfl, rfl, by rw [afterWord?, prefixed]⟩⟩
  | some rest =>
      have whole : cursor.pending = word ++ rest :=
        (List.isPrefixOf?_eq_some_iff_append_eq.mp prefixed).symm
      cases longer : (rest.head?.map isNameChar).getD false with
      | true =>
          simp only [prefixed, longer, if_true, pure_apply,
            EStateM.Result.ok.injEq] at read
          obtain ⟨rfl, rfl⟩ := read
          refine ⟨[], cursor.pending, rfl, rfl, .inr ⟨rfl, rfl, ?_⟩⟩
          rw [afterWord?, prefixed]
          simp [longer]
      | false =>
          simp only [prefixed, longer, Bool.false_eq_true, if_false,
            Reader.pass, bind_apply, modify_apply, pure_apply,
            EStateM.Result.ok.injEq] at read
          obtain ⟨rfl, rfl⟩ := read
          refine ⟨word, rest, whole, rfl, .inl ⟨rfl, rfl, ?_⟩⟩
          rw [afterWord?, ← whole, prefixed]
          simp [longer]

end Readers

/-- Texts of a kind that can be put together. -/
structure Chains (kind : Text → Prop) : Prop where
  nil : kind []
  append : ∀ {first second}, kind first → kind second → kind (first ++ second)

theorem chains_shut : Chains Shut :=
  ⟨shut_nil, Shut.append⟩

/-- The text ends outside of strings and not with a closing brace. -/
structure Loose (text : Text) : Prop where
  shut : Shut text
  last : text.getLast? ≠ some '}'

theorem chains_loose : Chains Loose := by
  refine ⟨⟨rfl, by simp⟩, fun left right => ⟨left.shut.append right.shut, ?_⟩⟩
  rename_i first second
  rw [List.getLast?_append]
  cases ending : second.getLast? with
  | none => simpa using left.last
  | some c =>
      have other := right.last
      rw [ending] at other
      simpa using other

theorem plain_of_isNameChar {c : Char} (name : isNameChar c = true) :
    isQuote c = false ∧ c ≠ '}' := by
  constructor
  · rw [Bool.eq_false_iff]
    intro quote
    simp only [isQuote, Bool.or_eq_true, beq_iff_eq] at quote
    rcases quote with rfl | rfl
    · exact absurd name (by decide)
    · exact absurd name (by decide)
  · rintro rfl
    exact absurd name (by decide)

theorem plain_of_isSpace {c : Char} (space : isSpace c = true) :
    isQuote c = false ∧ c ≠ '}' := by
  constructor
  · rw [Bool.eq_false_iff]
    intro quote
    simp only [isQuote, Bool.or_eq_true, beq_iff_eq] at quote
    rcases quote with rfl | rfl
    · exact absurd space (by decide)
    · exact absurd space (by decide)
  · rintro rfl
    exact absurd space (by decide)

theorem loose_of_plain {text : Text}
    (plain : ∀ c ∈ text, isQuote c = false ∧ c ≠ '}') :
    Loose text := by
  refine ⟨shut_of_plain fun c member => (plain c member).1, fun ending => ?_⟩
  exact (plain '}' (List.mem_of_getLast? ending)).2 rfl

theorem plain_name {taken rest : Text}
    (name : taken = (taken ++ rest).takeWhile isNameChar) :
    ∀ c ∈ taken, isQuote c = false ∧ c ≠ '}' := by
  intro c member
  rw [name] at member
  exact plain_of_isNameChar (List.mem_takeWhile_imp member)

theorem plain_space {taken rest : Text}
    (space : taken = (taken ++ rest).takeWhile isSpace) :
    ∀ c ∈ taken, isQuote c = false ∧ c ≠ '}' := by
  intro c member
  rw [space] at member
  exact plain_of_isSpace (List.mem_takeWhile_imp member)

namespace Takes

variable {α β : Type} {kind : Text → Prop}

theorem chain (chains : Chains kind) {action : Compile α} {next : α → Compile β}
    (left : Takes (fun taken _ _ => kind taken) action)
    (right : ∀ value, Takes (fun taken _ _ => kind taken) (next value)) :
    Takes (fun taken _ _ => kind taken) (action >>= next) :=
  left.bind right chains.append

end Takes

section Statements

open Compile

variable (environment : Environment)

theorem loose_readName :
    Takes (fun taken _ _ => Loose taken) (reading Reader.readName) :=
  takes_readName.mono fun name => loose_of_plain (plain_name name.2)

theorem loose_skipSpace :
    Takes (fun taken _ _ => Loose taken) (reading Reader.skipSpace) :=
  takes_skipSpace.mono fun space => loose_of_plain (plain_space space)

theorem shut_readUntil (stops : List Char) :
    Takes (fun taken _ _ => Shut taken) (reading (Reader.readUntil stops)) :=
  (takes_readUntil stops).mono fun read => Nesting.shut_of_checkClosed read.2.2

theorem shut_skipChar {c : Char} (plain : isQuote c = false) :
    Takes (fun taken _ _ => Shut taken) (reading (Reader.skipChar c)) := by
  refine (takes_skipChar c).mono fun skipped => ?_
  rcases skipped with rfl | rfl
  · exact shut_nil
  · exact shut_singleton plain

theorem shut_group {opening closing : Char} {contents rest : Text}
    (plainOpening : isQuote opening = false)
    (plainClosing : isQuote closing = false)
    (found : spanGroup opening closing 0 .outside
      (contents ++ closing :: rest) = some contents) :
    Shut (opening :: contents ++ [closing]) :=
  (shut_singleton plainOpening).append
    (Shut.append (spanGroup_split plainOpening plainClosing found).2
      (shut_singleton plainClosing))

theorem loose_parentheses :
    Takes (fun taken _ _ => Loose taken)
      (reading (Reader.readGroup '(' ')')) := by
  refine (takes_readGroup rfl rfl).mono fun ⟨whole, found⟩ => ?_
  refine ⟨whole ▸ shut_group rfl rfl found, ?_⟩
  rw [whole, List.getLast?_append]
  simp

theorem takes_mixinName :
    Takes (fun taken _ _ => Loose taken ∧ taken ≠ []) mixinName := by
  intro state result after ready succeeded
  obtain ⟨name, middle, read, succeeded⟩ := bind_ok succeeded
  obtain ⟨taken, between, passedName, same, word⟩ :=
    takes_readName state name middle ready read
  cases empty : name.isEmpty with
  | true => simp [empty, form] at succeeded
  | false =>
      simp only [empty, Bool.false_eq_true, if_false] at succeeded
      obtain ⟨_, last, spaced, returned⟩ := bind_ok succeeded
      obtain ⟨spaces, rest, passedSpaces, blank⟩ :=
        takes_skipSpace middle _ last (passedName.ready ready) spaced
      simp only [pure_apply, EStateM.Result.ok.injEq] at returned
      obtain ⟨-, rfl⟩ := returned
      have some : taken ≠ [] := by
        rw [← same]
        simpa using empty
      exact ⟨taken ++ spaces, rest, passedName.trans passedSpaces ready,
        chains_loose.append (loose_of_plain (plain_name word))
          (loose_of_plain (plain_space blank)),
        by simp [some]⟩

theorem loose_argumentList? :
    Takes (fun taken _ _ => Loose taken) argumentList? := by
  refine .getThen fun seen => ?_
  split
  · exact .chain chains_loose loose_parentheses fun _ =>
      .chain chains_loose loose_skipSpace fun _ => .pure fun _ =>
        chains_loose.nil
  · exact .pure fun _ => chains_loose.nil

theorem loose_endInclude (name : Text) :
    Takes (fun taken _ _ => Loose taken) (endInclude name) := by
  refine .getAt fun seen ready => ?_
  have head := Cursor.current_eq_head? ready
  split
  · rename_i semicolon
    refine takes_advance.mono fun taking pending => ?_
    obtain ⟨others, starts⟩ :=
      List.head?_eq_some_iff.mp (head.symm.trans semicolon)
    rw [← pending, starts] at taking
    rw [taking]
    exact ⟨shut_singleton rfl, by simp⟩
  · exact .pure fun _ _ => chains_loose.nil
  · exact .pure fun _ _ => chains_loose.nil
  · exact .form _

theorem shut_of_loose {α : Type} {action : Compile α}
    (loose : Takes (fun taken _ _ => Loose taken) action) :
    Takes (fun taken _ _ => Shut taken) action :=
  loose.mono Loose.shut

theorem shut_braces :
    Takes (fun taken _ _ => Shut taken) (reading (Reader.readGroup '{' '}')) :=
  (takes_readGroup rfl rfl).mono fun ⟨whole, found⟩ =>
    whole ▸ shut_group rfl rfl found

theorem shut_mixinBody (name : Text) (parameters : List Text) :
    Takes (fun taken _ _ => Shut taken) (mixinBody name parameters) := by
  refine .getThen fun place => .chain chains_shut shut_braces fun body =>
    .getThen fun defining =>
    .afterStill (fun _ => rfl) fun _ =>
      .afterResolved (resolved_record _) fun _ => ?_
  split
  · exact (Takes.of_resolved (resolved_warn _)).mono fun nothing =>
      nothing ▸ shut_nil
  · exact .pure fun _ => shut_nil

theorem shut_mixinDirective :
    Takes (fun taken _ _ => Shut taken) mixinDirective := by
  rw [mixinDirective_eq]
  refine .chain chains_shut (shut_of_loose (takes_mixinName.mono And.left))
    fun name => .getThen fun seen => ?_
  split
  · exact .chain chains_shut (shut_of_loose loose_parentheses) fun _ =>
      .afterResolved (.check _) fun _ =>
        .chain chains_shut (shut_of_loose loose_skipSpace) fun _ =>
          shut_mixinBody name _
  · exact shut_mixinBody name _

/-- Without what a loader finds, an import does not succeed with a path. -/
theorem shut_importDirective
    (nothing : ∀ path, (environment.loader.fetch path).content = none) :
    Takes (fun taken _ _ => Shut taken) (importDirective environment) := by
  refine .chain chains_shut (shut_readUntil _) fun raw =>
    .chain chains_shut (shut_skipChar rfl) fun _ =>
      .afterResolved (resolved_interpolate environment _) fun text =>
        .afterResolved (.check _) fun paths => ?_
  cases paths.reverse with
  | nil => exact .pure fun _ => shut_nil
  | cons path others =>
      intro state value after ready succeeded
      obtain ⟨_, _, found, _⟩ := bind_ok succeeded
      simp only [importFile] at found
      obtain ⟨_, _, _, found⟩ := bind_ok found
      obtain ⟨_, _, _, found⟩ := bind_ok found
      obtain ⟨_, _, _, found⟩ := bind_ok found
      simp [nothing path] at found

/-- What every statement does: strings end where they began, and at least one
character is taken. -/
def Eats (taken rest : Text) : Prop :=
  Shut taken ∧ ∀ c others, taken ++ rest = c :: others → c ≠ ';' →
    c ≠ '}' → taken ≠ []

theorem eats_blockStatement :
    Takes (fun taken _ rest => Eats taken rest)
      (blockStatement environment) := by
  have opening (block : Block) :
      Takes (fun taken _ _ => Shut taken ∧ taken ≠ []) (do
      reading (Cursor.expect '{')
      openBlock block) :=
    (takes_expect '{').bind (fun _ => .of_still fun _ => rfl)
      fun taking nothing => by
      rw [taking, nothing]
      exact ⟨shut_singleton rfl, by simp⟩
  have resolving
      (head : Text) : Takes (fun taken _ _ => Shut taken ∧ taken ≠ []) (do
      let block ← blockOf environment head
      reading (Cursor.expect '{')
      openBlock block) :=
    .afterResolved (resolved_blockOf environment head) opening
  exact (shut_readUntil _).bind (fun head => resolving head.trim)
    fun shut taking =>
    ⟨shut.append taking.1, fun _ _ _ _ _ => by simp [taking.2]⟩

theorem takes_addProperty (block : Block) (name value : Text) :
    Takes (fun taken _ _ => taken = []) (addProperty block name value) := by
  intro state result after ready added
  obtain ⟨log, same⟩ := addProperty_ok block name value state
  rw [same] at added
  obtain rfl : _ = after := by simpa using added
  exact ⟨[], state.cursor.pending, ⟨rfl, rfl⟩, rfl⟩

theorem shut_declare (raw : Text) :
    Takes (fun taken _ _ => Shut taken) (declare environment raw) := by
  refine .getThen fun seen => ?_
  split
  · exact .form _
  · split
    · exact .form _
    · refine .afterResolved (resolved_interpolate environment _)
        fun name => .guarded ?_
      refine .afterResolved (resolved_resolveValue environment _)
        fun value => .guarded ?_
      exact (takes_addProperty _ _ _).bind (fun _ => shut_skipChar rfl)
        fun nothing shut => by
        rwa [nothing]

theorem eats_declaration :
    Takes (fun taken _ rest => Eats taken rest) (declaration environment) := by
  have raw : Takes (fun taken _ rest => Eats taken rest)
      (reading (Reader.readUntil [';', '}'])) := by
    refine (takes_readUntil _).mono ?_
    rintro taken value rest ⟨-, span, closed⟩
    refine ⟨Nesting.shut_of_checkClosed closed,
      fun c others starts noSemicolon noBrace empty => ?_⟩
    rw [starts, empty, Nesting.spanUntil] at span
    simp [noSemicolon, noBrace] at span
  rw [declaration_eq]
  refine raw.bind (fun text => shut_declare environment text)
    fun eaten shut => ?_
  refine ⟨eaten.1.append shut, fun c others starts noSemicolon noBrace => ?_⟩
  have some :=
    eaten.2 c others (by rwa [← List.append_assoc]) noSemicolon noBrace
  simp [some]

theorem eats_statement :
    Takes (fun taken _ rest => Eats taken rest) (statement environment) := by
  refine .getThen fun seen => ?_
  split
  · exact eats_blockStatement environment
  · exact eats_declaration environment
  · exact eats_declaration environment
  · exact eats_declaration environment

theorem eats_after_advance {α : Type} {next : PUnit → Compile α}
    (following : ∀ value, Takes (fun taken _ _ => Shut taken) (next value)) :
    Takes (fun taken _ rest => ∀ c others, taken ++ rest = c :: others →
      isQuote c = false →
        Shut taken ∧ taken ≠ [])
      (reading (modify Cursor.advance) >>= next) := by
  refine takes_advance.bind following
    fun {before value after result rest} taking shut => ?_
  intro c others starts plain
  rw [List.append_assoc] at starts
  rw [starts] at taking
  rw [taking]
  exact ⟨(shut_singleton plain).append shut, by simp⟩

theorem eats_variableStatement :
    Takes (fun taken _ rest => ∀ c others, taken ++ rest = c :: others →
      isQuote c = false →
        Shut taken ∧ taken ≠ [])
      (variableStatement environment) := by
  have colon :
      Takes (fun taken _ _ => Shut taken) (reading (Cursor.expect ':')) :=
    (takes_expect ':').mono fun taking => taking ▸ shut_singleton rfl
  refine eats_after_advance fun _ =>
    .chain chains_shut (shut_of_loose loose_readName) fun name => .guarded ?_
  refine .chain chains_shut (shut_of_loose loose_skipSpace) fun _ =>
    .chain chains_shut colon fun _ =>
      .chain chains_shut (shut_readUntil _) fun raw =>
      .afterResolved (resolved_resolveValue environment _) fun value =>
        .getThen fun defining => .afterStill (fun _ => rfl) fun _ =>
          .afterResolvedIf (resolved_record _) (shut_skipChar rfl)

theorem closeBlock_ok {state final : State}
    (succeeded : closeBlock state = .ok () final) :
    final.cursor = state.cursor.advance := by
  cases blocks : state.blocks with
  | nil => simp [closeBlock, blocks] at succeeded
  | cons block rest =>
      cases outer : state.scopes.outer with
      | nil => simp [closeBlock, blocks, resolving_pop, outer] at succeeded
      | cons frame frames =>
          rw [closeBlock_cons blocks outer] at succeeded
          rw [← (EStateM.Result.ok.inj succeeded).2]

end Statements

end Stylesheet
