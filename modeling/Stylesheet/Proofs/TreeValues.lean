import Mathlib.Data.List.Forall2
import Stylesheet.Proofs.Footprint
import Stylesheet.Proofs.Reading
import Stylesheet.Proofs.Tree

/-!
# Values of printed trees

The scopes of the compiler and the stack of the evaluator can have the same
variables (`Mirrors`).  Then looking a variable up gives the same on both sides,
and so does resolving a printed value: its references are replaced in one round,
because the values of variables have no references of their own (`Sound`).
-/

namespace Stylesheet

open Stylesheet.Tree

theorem ordinary_of_isLetter {c : Char} (letter : isLetter c = true) :
    isOrdinary c = true := by
  simp only [isLetter, Bool.or_eq_true, Bool.and_eq_true, decide_eq_true_eq,
    Bool.not_eq_true'] at letter
  rcases letter with letter | ⟨beyond, visible⟩
  · exact ordinary_of_isAlphanum letter
  · have special : c ∉ marks := by
      intro member
      have small : ∀ mark ∈ marks, mark.toNat ≤ 0x7F := by decide
      have bounded := small c member
      omega
    simp [isOrdinary, visible, special]

theorem ordinary_of_isTargetChar {c : Char} (target : isTargetChar c = true) :
    isOrdinary c = true := by
  simp only [isTargetChar, Bool.or_eq_true, List.contains_eq_mem,
    decide_eq_true_eq] at target
  rcases target with letter | sign
  · exact ordinary_of_isLetter letter
  · have all : ∀ sign ∈ ['.', '#', '_', '-', '&'],
        isOrdinary sign = true := by decide
    exact all c sign

theorem ordinary_of_isValueChar {c : Char} (allowed : isValueChar c = true) :
    isOrdinary c = true := by
  simp only [isValueChar, Bool.or_eq_true, List.contains_eq_mem,
    decide_eq_true_eq] at allowed
  rcases allowed with letter | sign
  · exact ordinary_of_isLetter letter
  · have all : ∀ sign ∈ ['#', '%', '.', '-', '_'],
        isOrdinary sign = true := by decide
    exact all c sign

private theorem Tidy.of_all {kind : Char → Bool} {text : Text}
    (nonempty : text ≠ []) (all : ∀ c ∈ text, kind c = true) :
    Tidy kind text := by
  induction text with
  | nil => contradiction
  | cons c rest ih =>
      cases rest with
      | nil => exact .char (all c (by simp))
      | cons d rest =>
          exact .cons (all c (by simp))
            (ih (by simp) fun e member => all e (by simp [member]))

theorem Tidy.mono {kind wider : Char → Bool} {text : Text}
    (tidy : Tidy kind text) (widen : ∀ c, kind c = true → wider c = true) :
    Tidy wider text := by
  induction tidy with
  | char head => exact .char (widen _ head)
  | cons head _ ih => exact .cons (widen _ head) ih
  | gap head _ ih => exact .gap (widen _ head) ih

theorem Tree.Name.tidy (name : Name) : Tidy isOrdinary name.text :=
  .of_all name.nonempty fun c member =>
    ordinary_of_isNameChar (name.nameChars c member)

theorem Tree.Target.ordinary (target : Target) : Tidy isOrdinary target.text :=
  target.tidy.mono fun _ => ordinary_of_isTargetChar

/-- What a binding says about its variable. -/
def Binding.entry (binding : Binding) : Entry where
  value := binding.value
  fromDefault := binding.fromDefault

/-- A frame has the variables of a scope, and their bindings are in the
store. -/
def Holds (bindings : Array Binding) (frame : Frame) (scope : Scope) : Prop :=
  ∀ name,
    (frame.lookup name).map (fun place => bindings[place]?.map Binding.entry) =
    (scope.lookup name).map some

theorem Holds.retained {before after : Scopes} {frame : Frame} {scope : Scope}
    (retains : before.Retains after)
    (holds : Holds before.bindings frame scope) :
    Holds after.bindings frame scope := by
  intro name
  have known := holds name
  cases found : frame.lookup name with
  | none => rwa [found] at known
  | some place =>
      rw [found] at known
      cases entry : scope.lookup name with
      | none => simp [entry] at known
      | some entry =>
          simp only [entry, Option.map_some, Option.some.injEq,
            Option.map_eq_some_iff] at known
          obtain ⟨binding, present, same⟩ := known
          obtain ⟨uses, kept⟩ := retains place binding present
          simp [kept, ← same, Binding.entry]

theorem Holds.nil (bindings : Array Binding) : Holds bindings [] [] := by
  intro name
  rfl

/-- A new definition has the same effect on a frame as on a scope. -/
theorem Holds.bind {scopes : Scopes} {frame : Frame} {scope : Scope}
    (binding : Binding) (holds : Holds scopes.bindings frame scope) :
    Holds (scopes.bindings.push binding)
      (frame.bind binding.name scopes.bindings.size)
      ((binding.name, binding.entry) :: scope) := by
  intro name
  rw [Frame.lookup_bind, List.lookup_cons]
  cases same : name == binding.name with
  | true => simp
  | false => exact holds.retained (scopes.retains_bind binding) name

/-- The open scopes of the compiler have the variables of the evaluator's
stack. -/
def Mirrors (scopes : Scopes) (stack : List Scope) : Prop :=
  List.Forall₂ (Holds scopes.bindings) scopes.frames stack

namespace Mirrors

variable {scopes : Scopes} {stack : List Scope}

theorem consulted {after : Scopes} (consulted : scopes.Consulted after)
    (mirrors : Mirrors scopes stack) : Mirrors after stack := by
  have frames : after.frames = scopes.frames := by
    rw [Scopes.frames, consulted.inner, consulted.outer, Scopes.frames]
  unfold Mirrors
  rw [frames]
  exact mirrors.imp fun _ _ holds => holds.retained consulted.retains

/-- Both sides find the same variable. -/
theorem place (mirrors : Mirrors scopes stack) (name : Text) :
    (scopes.place? name).map
      (fun place => scopes.bindings[place]?.map Binding.entry) =
      (find stack name).map some := by
  unfold Mirrors at mirrors
  unfold Scopes.place? find
  generalize scopes.frames = frames at mirrors
  induction mirrors with
  | nil => rfl
  | @cons frame scope frames stack holds _ ih =>
      have known := holds name
      rw [List.findSome?_cons, List.findSome?_cons]
      cases found : frame.lookup name with
      | none =>
          cases entry : scope.lookup name with
          | none => exact ih
          | some entry => simp [found, entry] at known
      | some place =>
          cases entry : scope.lookup name with
          | none => simp [found, entry] at known
          | some entry => rwa [found, entry] at known

theorem get (mirrors : Mirrors scopes stack) (name : Text) :
    (scopes.get? name).map Binding.entry = find stack name := by
  have known := mirrors.place name
  unfold Scopes.get?
  cases found : scopes.place? name with
  | none =>
      rw [found] at known
      cases entry : find stack name with
      | none => rfl
      | some entry => simp [entry] at known
  | some place =>
      rw [found] at known
      cases entry : find stack name with
      | none => simp [entry] at known
      | some entry => simpa [entry] using known

theorem push (mirrors : Mirrors scopes stack) :
    Mirrors scopes.push ([] :: stack) :=
  .cons (.nil _) mirrors

theorem pop {popped : Scopes} (mirrors : Mirrors scopes stack)
    (closed : Scopes.pop scopes = .ok () popped) :
    Mirrors popped stack.tail := by
  unfold Scopes.pop at closed
  split at closed
  · simp at closed
  · rename_i frame outer enclosing
    simp only [EStateM.Result.ok.injEq, true_and] at closed
    subst popped
    rw [Mirrors, Scopes.frames, enclosing] at mirrors
    cases mirrors with
    | cons _ others => exact others

theorem define (mirrors : Mirrors scopes stack) (name value : Text)
    (isDefault : Bool) :
    Mirrors (scopes.define name value isDefault).2
      (Tree.define stack name value isDefault) := by
  have found := mirrors.get name
  have added : Mirrors (scopes.bind { name, value, fromDefault := isDefault })
      (stack.modifyHead
        ((name, { value, fromDefault := isDefault }) :: ·)) := by
    unfold Mirrors Scopes.frames at mirrors
    cases mirrors with
    | cons holds others =>
        exact .cons (holds.bind _)
          (others.imp fun _ _ => Holds.retained (scopes.retains_bind _))
  unfold Scopes.define Tree.define Scopes.keeps
  cases isDefault with
  | false => exact added
  | true =>
      cases present : scopes.get? name with
      | none =>
          rw [present] at found
          rw [← found]
          exact added
      | some binding =>
          rw [present, Option.map_some] at found
          rw [← found]
          cases late : binding.fromDefault with
          | true => simpa [Binding.entry, late] using added
          | false => simpa [Binding.entry, late] using mirrors

end Mirrors

/-- Every variable has a value that is words of ordinary characters. -/
def Sound (stack : List Scope) : Prop :=
  ∀ scope ∈ stack, ∀ entry ∈ scope, Tidy isOrdinary entry.2.value

namespace Sound

variable {stack : List Scope}

theorem find (sound : Sound stack) {name : Text} {entry : Entry}
    (found : Tree.find stack name = some entry) :
    Tidy isOrdinary entry.value := by
  obtain ⟨scope, member, bound⟩ := List.exists_of_findSome?_eq_some found
  obtain ⟨newer, older, rfl, -⟩ := List.lookup_eq_some_iff.mp bound
  exact sound _ member (name, entry) (by simp)

theorem define (sound : Sound stack) {value : Text}
    (tidy : Tidy isOrdinary value) (name : Text) (isDefault : Bool) :
    Sound (Tree.define stack name value isDefault) := by
  unfold Tree.define
  split
  · exact sound
  · cases stack with
    | nil => exact sound
    | cons scope stack =>
        intro other member entry bound
        rcases List.mem_cons.mp member with rfl | member
        · rcases List.mem_cons.mp bound with rfl | bound
          · exact tidy
          · exact sound scope (by simp) entry bound
        · exact sound other (by simp [member]) entry bound

end Sound

/-- The characters of values before their references are replaced. -/
def isSourceChar (c : Char) : Bool :=
  isOrdinary c || c == '$'

namespace Tree

variable {continues : Bool} {stack : List Scope}

theorem Piece.tidy (piece : Piece) : Tidy isSourceChar piece.text := by
  cases piece with
  | char c allowed =>
      exact .char (by simp [isSourceChar, ordinary_of_isValueChar allowed])
  | reference name =>
      have source : Tidy isSourceChar name.text :=
        name.tidy.mono fun c ordinary => by simp [isSourceChar, ordinary]
      exact .cons (by decide) source

theorem Value.tidy (value : Value continues) :
    Tidy isSourceChar value.text := by
  induction value with
  | last piece => exact piece.tidy
  | joined piece rest _ ih => exact piece.tidy.append ih
  | spaced piece rest ih => exact piece.tidy.append_gap ih

private theorem Value.text_starts (value : Value continues) :
    ∃ c rest, value.text = c :: rest ∧ isNameChar c = continues := by
  have starts : ∀ (piece : Piece) (rest : Text),
      ∃ c others, piece.text ++ rest = c :: others ∧
        isNameChar c = piece.continuesName := by
    intro piece rest
    cases piece with
    | char c _ => exact ⟨c, rest, rfl, rfl⟩
    | reference name => exact ⟨'$', name.text ++ rest, rfl, rfl⟩
  cases value with
  | last piece =>
      obtain ⟨c, rest, same, kind⟩ := starts piece []
      exact ⟨c, rest, by rwa [List.append_nil] at same, kind⟩
  | joined piece rest _ => exact starts piece rest.text
  | spaced piece rest => exact starts piece (' ' :: rest.text)

theorem follow_ok {first second : Except Error Text} {text : Text}
    (succeeded : follow first second = .ok text) :
    ∃ head tail, first = .ok head ∧ second = .ok tail ∧
      head ++ tail = text := by
  cases first with
  | error error => cases succeeded
  | ok head =>
      cases second with
      | error error => cases succeeded
      | ok tail =>
          cases succeeded
          exact ⟨head, tail, rfl, rfl, rfl⟩

theorem follow_assoc (first second third : Except Error Text) :
    follow (follow first second) third =
      follow first (follow second third) := by
  cases first with
  | error error => rfl
  | ok head =>
      cases second with
      | error error => rfl
      | ok middle =>
          cases third with
          | error error => rfl
          | ok tail =>
              exact congrArg Except.ok (List.append_assoc head middle tail)

theorem Piece.evaluate_tidy (sound : Sound stack) {piece : Piece} {text : Text}
    (evaluated : piece.evaluate stack = .ok text) : Tidy isOrdinary text := by
  cases piece with
  | char c allowed =>
      obtain rfl : [c] = text := by simpa [Piece.evaluate] using evaluated
      exact .char (ordinary_of_isValueChar allowed)
  | reference name =>
      unfold Piece.evaluate at evaluated
      cases found : Tree.find stack name.text with
      | none => simp [found] at evaluated
      | some entry =>
          obtain rfl : entry.value = text := by simpa [found] using evaluated
          exact sound.find found

theorem Value.evaluate_tidy (sound : Sound stack)
    {value : Value continues} {text : Text}
    (evaluated : value.evaluate stack = .ok text) : Tidy isOrdinary text := by
  induction value generalizing text with
  | last piece => exact Piece.evaluate_tidy sound evaluated
  | joined piece rest _ ih =>
      obtain ⟨head, tail, first, second, rfl⟩ := follow_ok evaluated
      exact (Piece.evaluate_tidy sound first).append (ih second)
  | spaced piece rest ih =>
      obtain ⟨head, spaced, first, second, rfl⟩ := follow_ok evaluated
      obtain ⟨space, tail, gap, third, rfl⟩ := follow_ok second
      obtain rfl : [' '] = space := by simpa using gap
      exact (Piece.evaluate_tidy sound first).append_gap (ih third)

end Tree

/-- An action on scopes gives `result` and only looks variables up, whenever the
scopes have the variables of `stack`. -/
def Answers {α : Type} (stack : List Scope) (action : EStateM Error Scopes α)
    (result : Except Error α) : Prop :=
  ∀ scopes, Mirrors scopes stack → ∃ after, scopes.Consulted after ∧
    action scopes =
      match result with
      | .ok value => .ok value after
      | .error error => .error error after

namespace Answers

variable {α β : Type} {stack : List Scope}

theorem pure (value : α) : Answers stack (Pure.pure value) (.ok value) :=
  fun scopes _ => ⟨scopes, Std.Refl.refl scopes, rfl⟩

theorem bind {action : EStateM Error Scopes α} {result : Except Error α}
    {next : α → EStateM Error Scopes β} {following : α → Except Error β}
    (first : Answers stack action result)
    (second : ∀ value, Answers stack (next value) (following value)) :
    Answers stack (action >>= next) (result >>= following) := by
  intro scopes mirrors
  obtain ⟨middle, looked, same⟩ := first scopes mirrors
  cases result with
  | error error =>
      refine ⟨middle, looked, ?_⟩
      rw [bind_apply, same]
      rfl
  | ok value =>
      obtain ⟨after, more, final⟩ :=
        second value middle (mirrors.consulted looked)
      refine ⟨after, trans_of Scopes.Consulted looked more, ?_⟩
      rw [bind_apply, same]
      exact final

/-- Reading a variable finds what the evaluator finds. -/
theorem read (name : VariableName) :
    Answers stack (Scopes.read name.text)
      ((Piece.reference name).evaluate stack) := by
  intro scopes mirrors
  have known := mirrors.place name.text
  refine ⟨finalState (Scopes.read name.text scopes),
    Scopes.consulted_read _ scopes, ?_⟩
  cases found : scopes.place? name.text with
  | none =>
      cases entry : find stack name.text with
      | none => simp [Scopes.read, found, Piece.evaluate, entry, finalState]
      | some entry => simp [found, entry] at known
  | some place =>
      cases entry : find stack name.text with
      | none => simp [found, entry] at known
      | some entry =>
          simp only [found, entry, Option.map_some, Option.some.injEq,
            Option.map_eq_some_iff] at known
          obtain ⟨binding, present, rfl⟩ := known
          simp [Scopes.read, found, present, Piece.evaluate, entry,
            Binding.entry, finalState]

end Answers

namespace Variable

theorem replaceAfter_skip (passed rest : Text) :
    replaceAfter passed.length (passed ++ rest) = replaceAfter 0 rest := by
  induction passed with
  | nil => rfl
  | cons c passed ih => rwa [List.length_cons, List.cons_append, replaceAfter]

theorem replaceAfter_plain {text : Text} (plain : ∀ c ∈ text, c ≠ '$') :
    replaceAfter 0 text = pure text := by
  induction text with
  | nil => rfl
  | cons c rest ih =>
      have other : (c == '$') = false := by simpa using plain c (by simp)
      rw [replaceAfter, other, ih fun d member => plain d (by simp [member])]
      rfl

theorem replaceAfter_char {c : Char} (plain : c ≠ '$') (rest : Text) :
    replaceAfter 0 (c :: rest) = do return c :: (← replaceAfter 0 rest) := by
  have other : (c == '$') = false := by simpa using plain
  rw [replaceAfter, other]
  rfl

theorem replaceAfter_reference (name : VariableName) {rest : Text}
    (stops : ∀ c, rest.head? = some c → isNameChar c = false) :
    replaceAfter 0 ('$' :: (name.text ++ rest)) = do
      let value ← Scopes.read name.text
      return value ++ (← replaceAfter 0 rest) := by
  have referable : startsReference (name.text ++ rest) = true := by
    have starts := name.referable
    cases shape : name.text with
    | nil => exact absurd shape name.nonempty
    | cons c others =>
        rw [shape] at starts
        exact starts
  have reads : (name.text ++ rest).takeWhile isNameChar = name.text :=
    takeWhile_append name.nameChars stops
  rw [replaceAfter, referable, reads]
  dsimp only
  rw [replaceAfter_skip]
  rfl

theorem replaceAfter_absent {text : Text} (absent : occursIn text = false) :
    replaceAfter 0 text = pure text := by
  induction text with
  | nil => rfl
  | cons c rest ih =>
      rw [occursIn, Bool.or_eq_false_iff] at absent
      rw [replaceAfter, absent.1, ih absent.2]
      rfl

theorem replaceAfter_append {plain : Text} (ordinary : ∀ c ∈ plain, c ≠ '$')
    (rest : Text) :
    replaceAfter 0 (plain ++ rest) = do
  return plain ++ (← replaceAfter 0 rest) := by
  induction plain with
  | nil => simp
  | cons c plain ih =>
      rw [List.cons_append, replaceAfter_char (ordinary c (by simp)),
        ih fun d member => ordinary d (by simp [member])]
      simp

end Variable

namespace Answers

variable {stack : List Scope}

theorem follow {prefixed rest : EStateM Error Scopes Text}
    {first second : Except Error Text} (left : Answers stack prefixed first)
    (right : Answers stack rest second) :
    Answers stack (do return (← prefixed) ++ (← rest))
      (Tree.follow first second) :=
  left.bind fun head => right.bind fun tail => .pure (head ++ tail)

theorem plain {text rest : Text} {result : Except Error Text}
    (ordinary : ∀ c ∈ text, c ≠ '$')
    (tail : Answers stack (Variable.replaceAfter 0 rest) result) :
    Answers stack (Variable.replaceAfter 0 (text ++ rest))
      (Tree.follow (.ok text) result) := by
  rw [Variable.replaceAfter_append ordinary]
  exact (pure text).follow tail

theorem piece {piece : Piece} {rest : Text} {result : Except Error Text}
    (apart : piece.isReference = true → ∀ c, rest.head? = some c →
      isNameChar c = false)
    (tail : Answers stack (Variable.replaceAfter 0 rest) result) :
    Answers stack (Variable.replaceAfter 0 (piece.text ++ rest))
      (Tree.follow (piece.evaluate stack) result) := by
  cases piece with
  | char c allowed =>
      refine plain (fun d member => ?_) tail
      obtain rfl : d = c := List.mem_singleton.mp member
      exact ne_of_ordinary (ordinary_of_isValueChar allowed) (by decide)
  | reference name =>
      rw [Piece.text, List.cons_append,
        Variable.replaceAfter_reference name (apart rfl)]
      exact (read name).follow tail

/-- Replacing the references of a printed value evaluates it, whatever follows
that is not part of a name. -/
theorem value {continues : Bool} (value : Tree.Value continues) {rest : Text}
    {result : Except Error Text}
    (apart : ∀ c, rest.head? = some c → isNameChar c = false)
    (tail : Answers stack (Variable.replaceAfter 0 rest) result) :
    Answers stack (Variable.replaceAfter 0 (value.text ++ rest))
      (Tree.follow (value.evaluate stack) result) := by
  induction value with
  | last last => exact .piece (fun _ => apart) tail
  | joined first others separate ih =>
      rw [Tree.Value.text, List.append_assoc, Tree.Value.evaluate, follow_assoc]
      refine piece (fun reference c starts => ?_) ih
      obtain ⟨d, more, shape, kind⟩ := others.text_starts
      rw [shape, List.cons_append, List.head?_cons, Option.some.injEq] at starts
      rw [← starts, kind, separate reference]
  | spaced first others ih =>
      have gap := @plain stack [' '] _ _ (by decide) ih
      rw [Tree.Value.text, List.append_assoc, Tree.Value.evaluate,
        follow_assoc, follow_assoc]
      refine piece (fun _ c starts => ?_) gap
      obtain rfl : ' ' = c := by simpa using starts
      decide

/-- Values without references of their own are replaced in one round. -/
theorem substitute {text : Text} {result : Except Error Text}
    (replaced : Answers stack (Variable.replace text) result)
    (plain : ∀ value, result = .ok value → ∀ c ∈ value, c ≠ '$') :
    Answers stack (Variable.substitute text) result := by
  intro scopes mirrors
  obtain ⟨after, looked, same⟩ := replaced scopes mirrors
  unfold Variable.substitute Variable.maxRounds Variable.substituteWithin
  cases occurs : Variable.occursIn text with
  | false =>
      rw [Variable.replace, Variable.replaceAfter_absent occurs] at same
      exact ⟨after, looked, same⟩
  | true =>
      refine ⟨after, looked, ?_⟩
      rw [if_pos rfl, bind_apply, same]
      cases result with
      | error error => rfl
      | ok value =>
          have absent := Variable.occursIn_plain (plain value rfl)
          simp [Variable.substituteWithin, absent]

end Answers

theorem ne_of_isSpace {c mark : Char} (space : isSpace c = true)
    (visible : isSpace mark = false) :
    c ≠ mark := by
  rintro rfl
  rw [space] at visible
  contradiction

theorem Tree.Spaces.blank {gap : Text} (space : Spaces gap) :
    ∀ c ∈ gap, isBlank c = true :=
  fun c member => isBlank_of_isSpace (space c member)

private theorem ne_of_isSourceChar {c mark : Char}
    (source : isSourceChar c = true) (special : mark ∈ marks)
    (other : mark ≠ '$') : c ≠ mark := by
  simp only [isSourceChar, Bool.or_eq_true, beq_iff_eq] at source
  rcases source with ordinary | rfl
  · exact ne_of_ordinary ordinary special
  · exact other.symm

theorem Tree.Value.ne {continues : Bool}
    (value : Tree.Value continues) {mark : Char} (special : mark ∈ marks)
    (other : mark ≠ '$') : ∀ c ∈ value.text, c ≠ mark := by
  intro c member
  rcases value.tidy.mem c member with source | rfl
  · exact ne_of_isSourceChar source special other
  · rintro rfl
    exact absurd special (by decide)

namespace Compile

variable {stack : List Scope} {state : State}

/-- A printed value resolves to what it evaluates to. -/
theorem resolveValue_printed (environment : Environment) {continues : Bool}
    (value : Tree.Value continues) {before after : Text}
    (spaceBefore : Spaces before) (spaceAfter : Spaces after)
    (mirrors : Mirrors state.scopes stack) (sound : Sound stack) :
    ∃ scopes, state.scopes.Consulted scopes ∧
      resolveValue environment (before ++ value.text ++ after) state =
        match value.evaluate stack with
        | .ok text => .ok text { state with scopes }
        | .error error => .error error { state with scopes } := by
  have noHole : ∀ c ∈ before ++ value.text ++ after, c ≠ '{' := by
    intro c member
    rcases List.mem_append.mp member with member | member
    · rcases List.mem_append.mp member with member | member
      · exact ne_of_isSpace (spaceBefore c member) (by decide)
      · exact value.ne (by decide) (by decide) c member
    · exact ne_of_isSpace (spaceAfter c member) (by decide)
  have ending : Answers stack (Variable.replaceAfter 0 after) (.ok after) := by
    rw [Variable.replaceAfter_plain
      fun c member => ne_of_isSpace (spaceAfter c member) (by decide)]
    exact .pure after
  have replaced :=
    Answers.plain
      (fun c member => ne_of_isSpace (spaceBefore c member) (by decide))
    (Answers.value value (fun c first =>
      not_name_of_isSpace (spaceAfter c (List.mem_of_mem_head? first))) ending)
  rw [← List.append_assoc] at replaced
  cases evaluated : value.evaluate stack with
  | error error =>
      rw [evaluated] at replaced
      have substituted : Answers stack (Variable.substitute _) (.error error) :=
        replaced.substitute fun _ same => by cases same
      obtain ⟨scopes, looked, same⟩ := substituted state.scopes mirrors
      refine ⟨scopes, looked, ?_⟩
      simp only [resolveValue, finishValue, bind_apply,
        interpolate_plain environment noHole, resolving, same]
  | ok text =>
      have tidy := value.evaluate_tidy sound evaluated
      have noMark : ∀ {mark : Char}, isSpace mark = false → mark ∈ marks →
          ∀ c ∈ before ++ text ++ after, c ≠ mark := by
        intro mark visible special c member
        rcases List.mem_append.mp member with member | member
        · rcases List.mem_append.mp member with member | member
          · exact ne_of_isSpace (spaceBefore c member) visible
          · rcases tidy.mem c member with ordinary | rfl
            · exact ne_of_ordinary ordinary special
            · exact ne_of_isSpace (by decide) visible
        · exact ne_of_isSpace (spaceAfter c member) visible
      have result : follow (.ok before) (follow (.ok text) (.ok after)) =
          .ok (before ++ text ++ after) :=
        congrArg Except.ok (List.append_assoc before text after).symm
      rw [evaluated, result] at replaced
      have substituted : Answers stack (Variable.substitute _)
          (.ok (before ++ text ++ after)) :=
        replaced.substitute fun _ same => by
          cases same
          exact noMark (by decide) (by decide)
      obtain ⟨scopes, looked, same⟩ := substituted state.scopes mirrors
      refine ⟨scopes, looked, ?_⟩
      rw [resolveValue_plain noHole (noMark (by decide) (by decide)) same,
        tidy.normalize_eq (fun c ordinary => ⟨visible_of_ordinary ordinary,
          unquoted_of_ordinary ordinary⟩) spaceBefore.blank spaceAfter.blank]

end Compile

end Stylesheet
