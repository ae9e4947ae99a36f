import Mathlib.Data.List.Induction
import Mathlib.Data.List.Nodup
import Stylesheet.Proofs.Footprint

/-!
# The history of a registry

A registry has one entry for every name and changes it in place: a definition
puts a new mixin there, an inclusion counts a use.  What an entry holds can be
read off the calls that were made: it is the latest definition of its name, with
the files of the inclusions that succeeded after that definition.  The entries
stand in the order of the first definitions, and the index leads from every name
to its entry.
-/

namespace Stylesheet

namespace Mixin

/-- The mixin after inclusions from `files`, and no others. -/
def usedFrom (mixin : Mixin) (files : List (Option Text)) : Mixin :=
  { mixin with
    uses := files.length
    firstUse := files.head?.join
    usedInOneFile := files.all fun file => files.head? == some file ||
      mixin.file == file }

variable (mixin : Mixin) (files : List (Option Text))

private theorem recordUse_usedFrom (file : Option Text) :
    (mixin.usedFrom files).recordUse file =
      mixin.usedFrom (files ++ [file]) := by
  cases files with
  | nil => simp [usedFrom, recordUse]
  | cons first others =>
      -- The file of the first use stays the same, so the earlier uses are
      -- judged as before.
      simp [usedFrom, recordUse]

end Mixin

namespace Mixins

/-- What is done with a registry: a new mixin is defined, or a name is included
from a file with the scopes that are open there. -/
inductive Call where
  | define (name : Text) (parameters : List Text) (body : Text)
      (file : Option Text) (line : Nat)
  | expand (name : Text) (arguments : List Text) (file : Option Text)
      (scopes : Scopes)

/-- The registry and the scopes after an inclusion, whether it succeeded or
failed. -/
def including (mixins : Mixins) (name : Text) (arguments : List Text)
    (file : Option Text) (scopes : Scopes) : Mixins × Scopes :=
  finalState (expand name arguments file (mixins, scopes))

def apply (mixins : Mixins) : Call → Mixins
  | .define name parameters body file line =>
      mixins.define { name, parameters, body, file, line }
  | .expand name arguments file scopes =>
      (mixins.including name arguments file scopes).1

def after (mixins : Mixins) (calls : List Call) : Mixins :=
  calls.foldl apply mixins

private theorem after_concat (mixins : Mixins) (calls : List Call)
    (call : Call) :
    mixins.after (calls ++ [call]) = (mixins.after calls).apply call :=
  List.foldl_concat ..

namespace Call

/-- The mixin that a call defines under a name. -/
def definition? (name : Text) : Call → Option Mixin
  | .define defined parameters body file line =>
      if defined == name then
        some { name := defined, parameters, body, file, line }
      else none
  | .expand .. => none

def defines? : Call → Option Text
  | .define name .. => some name
  | .expand .. => none

/-- The file from which a call includes a mixin, with as many arguments as it
takes. -/
def use? (mixin : Mixin) : Call → Option (Option Text)
  | .define .. => none
  | .expand name arguments file _ =>
      if name == mixin.name && arguments.length == mixin.parameters.length then
        some file
      else none

end Call

/-- Calls on a registry that was empty, the earliest first. -/
abbrev History := List Call

namespace History

/-- The latest definition of a name. -/
def latest? (history : History) (name : Text) : Option Mixin :=
  history.reverse.findSome? (·.definition? name)

/-- The calls after the latest definition of a name. -/
def since (history : History) (name : Text) : List Call :=
  (history.reverse.takeWhile fun call => (call.definition? name).isNone).reverse

/-- The files from which a mixin was included after its definition. -/
def uses (history : History) (mixin : Mixin) : List (Option Text) :=
  (history.since mixin.name).filterMap (·.use? mixin)

/-- The defined names in the order of their first definition. -/
def names (history : History) : List Text :=
  (history.filterMap Call.defines?).eraseDups

variable (history : History) (call : Call) (name : Text)

theorem latest?_concat :
    latest? (history ++ [call]) name =
      (call.definition? name).or (history.latest? name) := by
  rw [latest?, List.reverse_concat, List.findSome?_cons]
  cases call.definition? name with
  | none => rfl
  | some mixin => rfl

private theorem since_concat :
    since (history ++ [call]) name =
      if (call.definition? name).isSome then []
      else history.since name ++ [call] := by
  rw [since, List.reverse_concat, List.takeWhile_cons]
  cases call.definition? name with
  | none => simp [since]
  | some mixin => simp

theorem uses_concat (mixin : Mixin) :
    uses (history ++ [call]) mixin =
      if (call.definition? mixin.name).isSome then []
      else history.uses mixin ++ (call.use? mixin).toList := by
  rw [uses, since_concat]
  split
  · rfl
  · rw [List.filterMap_append, List.filterMap_cons, List.filterMap_nil, uses]
    cases call.use? mixin with
    | none => rfl
    | some file => rfl

theorem names_concat_of_none (silent : call.defines? = none) :
    names (history ++ [call]) = history.names := by
  simp [names, silent]

private theorem names_concat (defined : call.defines? = some name) :
    names (history ++ [call]) =
      if name ∈ history.names then history.names
      else history.names ++ [name] := by
  simp only [names, List.filterMap_append, List.filterMap_cons,
    List.filterMap_nil, defined, List.eraseDups_append, List.mem_eraseDups]
  generalize List.filterMap Call.defines? history = earlier
  split
  · rename_i known
    simp [List.removeAll, known]
  · rename_i new
    simp [List.removeAll, new, List.eraseDups_cons]

theorem name_of_latest? {mixin : Mixin}
    (latest : history.latest? name = some mixin) :
    mixin.name = name := by
  obtain ⟨call, -, defined⟩ := List.exists_of_findSome?_eq_some latest
  cases call with
  | define other parameters body file line =>
      simp only [Call.definition?] at defined
      split at defined
      · rename_i same
        rw [← Option.some.inj defined]
        exact beq_iff_eq.mp same
      · cases defined
  | expand => cases defined

end History

def names (mixins : Mixins) : List Text :=
  mixins.toList.map Mixin.name

/-- The index leads from every name to the entry that has it, and nowhere from
any other name. -/
def Indexed (mixins : Mixins) : Prop :=
  ∀ name place, mixins.place? name = some place ↔
    mixins.names[place]? = some name

namespace Indexed

variable {mixins : Mixins} (indexed : mixins.Indexed)
include indexed

private theorem nodup : mixins.names.Nodup := by
  refine List.nodup_iff_getElem?_ne_getElem?.mpr
    fun place later before inside same => ?_
  have named : mixins.names[later]? = some mixins.names[later] :=
    List.getElem?_eq_getElem inside
  have first := (indexed _ place).mpr (same.trans named)
  rw [(indexed _ later).mpr named] at first
  exact Nat.lt_irrefl place (Option.some.inj first ▸ before)

theorem contains_iff (name : Text) : mixins.contains name = true ↔
    name ∈ mixins.names := by
  rw [contains, Option.isSome_iff_exists, List.mem_iff_getElem?]
  exact exists_congr fun place => indexed name place

theorem get?_of_place? {name : Text} {place : Nat}
    (known : mixins.place? name = some place) :
    ∃ mixin, mixins.toList[place]? = some mixin ∧ mixin.name = name := by
  have named := (indexed name place).mp known
  rw [names, List.getElem?_map] at named
  exact Option.map_eq_some_iff.mp named

theorem get?_isSome (name : Text) :
    (mixins.get? name).isSome = mixins.contains name := by
  rw [contains, get?]
  cases known : mixins.place? name with
  | none => rfl
  | some place =>
      obtain ⟨mixin, listed, -⟩ := indexed.get?_of_place? known
      simp [listed]

theorem names_replace (mixin : Mixin) :
    (mixins.replace mixin).names = mixins.names := by
  unfold replace
  split
  · rename_i place known
    obtain ⟨inside, named⟩ :=
      List.getElem?_eq_some_iff.mp ((indexed mixin.name place).mp known)
    rw [names, List.map_set, ← named]
    exact List.set_getElem_self inside
  · rfl

theorem replace (mixin : Mixin) : (mixins.replace mixin).Indexed := by
  intro name place
  rw [place?_replace, indexed.names_replace]
  exact indexed name place

theorem get?_replace_of_ne (mixin : Mixin) {name : Text}
    (other : name ≠ mixin.name) :
    (mixins.replace mixin).get? name = mixins.get? name := by
  rw [get?, get?, place?_replace]
  cases known : mixins.place? name with
  | none => rfl
  | some place =>
      change (mixins.replace mixin).toList[place]? = mixins.toList[place]?
      unfold Mixins.replace
      split
      · rename_i changed present
        have apart : changed ≠ place := by
          rintro rfl
          have same :=
            ((indexed _ _).mp present).symm.trans ((indexed _ _).mp known)
          exact other (Option.some.inj same).symm
        exact List.getElem?_set_ne apart
      · rfl

theorem get?_isSome_iff (name : Text) : (mixins.get? name).isSome ↔
    name ∈ mixins.names := by
  rw [indexed.get?_isSome, indexed.contains_iff]

/-- A name that is not registered gets an entry behind the others. -/
theorem define_new {mixin : Mixin} (new : mixin.name ∉ mixins.names) :
    (mixins.define mixin).Indexed ∧
      (mixins.define mixin).names = mixins.names ++ [mixin.name] ∧
      ∀ name, (mixins.define mixin).get? name =
        if name = mixin.name then some mixin else mixins.get? name := by
  have appended : mixins.define mixin =
      { toList := mixins.toList ++ [mixin]
        index := (mixin.name, mixins.toList.length) :: mixins.index } := by
    rw [Mixins.define, if_neg (new ∘ (indexed.contains_iff _).mp)]
  have named : (mixins.define mixin).names = mixins.names ++ [mixin.name] := by
    simp [appended, names]
  have own : (mixins.define mixin).place? mixin.name =
      some mixins.names.length := by
    simp [appended, place?, names]
  have others {name : Text} (other : name ≠ mixin.name) :
      (mixins.define mixin).place? name = mixins.place? name := by
    rw [appended, place?, List.lookup_cons, beq_false_of_ne other]
    rfl
  have listed (name : Text)
      (place : Nat) : (mixins.names ++ [mixin.name])[place]? = some name ↔
      mixins.names[place]? = some name ∨ mixins.names.length = place ∧
        mixin.name = name := by
    rw [List.getElem?_append]
    grind
  refine ⟨fun name place => ?_, named, fun name => ?_⟩
  · rw [named, listed]
    by_cases same : name = mixin.name
    · subst same
      have absent : mixins.names[place]? ≠ some mixin.name := fun present =>
        new (List.mem_of_getElem? present)
      rw [own, Option.some.injEq]
      simp [absent]
    · rw [others same, indexed name place]
      simp [Ne.symm same]
  · split
    · rename_i same
      rw [same, get?, own, appended]
      simp [names]
    · rename_i other
      rw [get?, get?, others other]
      cases known : mixins.place? name with
      | none => rfl
      | some place =>
          obtain ⟨found, present, -⟩ := indexed.get?_of_place? known
          have inside := (List.getElem?_eq_some_iff.mp present).1
          rw [appended]
          exact List.getElem?_append_left inside

theorem define (mixin : Mixin) :
    (mixins.define mixin).Indexed ∧
      (mixins.define mixin).names =
        (if mixin.name ∈ mixins.names then mixins.names
          else mixins.names ++ [mixin.name]) ∧
      ∀ name, (mixins.define mixin).get? name =
        if name = mixin.name then some mixin else mixins.get? name := by
  by_cases known : mixin.name ∈ mixins.names
  · rw [Mixins.define, if_pos ((indexed.contains_iff _).mpr known),
      if_pos known]
    refine ⟨indexed.replace mixin, indexed.names_replace mixin, fun name => ?_⟩
    split
    · rename_i same
      obtain ⟨previous, present⟩ :=
        Option.isSome_iff_exists.mp
          ((indexed.get?_isSome_iff mixin.name).mpr known)
      rw [same]
      exact get?_replace present
    · rename_i other
      exact indexed.get?_replace_of_ne mixin other
  · rw [if_neg known]
    exact indexed.define_new known

end Indexed

private theorem indexed_empty : ({} : Mixins).Indexed := by
  intro name place
  simp [place?, names]

/-- The registry is what the calls say. -/
structure Follows (mixins : Mixins) (history : History) : Prop where
  indexed : mixins.Indexed
  names : mixins.names = history.names
  get? : ∀ name, mixins.get? name =
    (history.latest? name).map fun mixin => mixin.usedFrom (history.uses mixin)

namespace Follows

variable {mixins : Mixins} {history : History}

theorem define (follows : mixins.Follows history) (name : Text)
    (parameters : List Text) (body : Text) (file : Option Text) (line : Nat) :
    (mixins.define { name, parameters, body, file, line }).Follows
      (history ++ [.define name parameters body file line]) := by
  obtain ⟨indexed, named, found⟩ :=
    follows.indexed.define { name, parameters, body, file, line }
  refine ⟨indexed, ?_, fun other => ?_⟩
  · rw [named, follows.names, history.names_concat _ name rfl]
  · rw [found, History.latest?_concat, Call.definition?]
    by_cases same : other = name
    · subst same
      simp [History.uses_concat, Call.definition?, Mixin.usedFrom]
    · rw [if_neg same, if_neg (by simpa using Ne.symm same),
        Option.none_or, follows.get?]
      refine Option.map_congr fun mixin latest => ?_
      have apart : name ≠ mixin.name := by
        rw [history.name_of_latest? other latest]
        exact Ne.symm same
      simp [History.uses_concat, Call.definition?, Call.use?, apart]

/-- What an inclusion does, by the latest definition of its name. -/
theorem expanded (follows : mixins.Follows history) (name : Text)
    (arguments : List Text) (file : Option Text) (scopes : Scopes) :
    mixins.expanded name arguments file scopes =
      match history.latest? name with
      | none => .error (.undefinedMixin name)
      | some mixin =>
          if arguments.length = mixin.parameters.length then
            .ok
              ({ text := mixin.body ++ ['}'], file := mixin.file,
                 line := mixin.line },
              mixins.replace (mixin.usedFrom (history.uses mixin ++ [file])),
              (mixin.parameters.zip arguments).foldl
                (fun scopes (parameter, value) =>
                  (scopes.define parameter value false).2) scopes)
          else .error
            (.argumentCount name mixin.parameters.length arguments.length) := by
  rw [Mixins.expanded, follows.get?]
  cases history.latest? name with
  | none => rfl
  | some mixin =>
      rw [Option.map_some]
      dsimp only
      rw [Mixin.recordUse_usedFrom]
      by_cases fits : arguments.length = mixin.parameters.length
      · simp [Mixin.usedFrom, fits]
      · simp [Mixin.usedFrom, fits]

/-- A call that neither defines nor uses a mixin makes no difference. -/
theorem idle (follows : mixins.Follows history) {name : Text}
    {arguments : List Text} {file : Option Text} {scopes : Scopes}
    (unused : ∀ mixin, history.latest? name = some mixin →
      arguments.length ≠ mixin.parameters.length) :
    mixins.Follows (history ++ [.expand name arguments file scopes]) := by
  refine ⟨follows.indexed, ?_, fun other => ?_⟩
  · rw [follows.names, history.names_concat_of_none _ rfl]
  · rw [follows.get?, History.latest?_concat, Call.definition?, Option.none_or]
    refine Option.map_congr fun mixin latest => ?_
    have named := history.name_of_latest? other latest
    have nothing :
        Call.use? mixin (.expand name arguments file scopes) = none := by
      rw [Call.use?, if_neg]
      simp only [Bool.and_eq_true, beq_iff_eq, not_and]
      rintro rfl
      exact unused mixin (named ▸ latest)
    simp [History.uses_concat, Call.definition?, nothing]

/-- An inclusion that fits counts for the latest definition of its name. -/
theorem counted (follows : mixins.Follows history) {name : Text} {mixin : Mixin}
    (latest : history.latest? name = some mixin) {arguments : List Text}
    (fits : arguments.length = mixin.parameters.length) (file : Option Text)
    (scopes : Scopes) :
    (mixins.replace (mixin.usedFrom (history.uses mixin ++ [file]))).Follows
      (history ++ [.expand name arguments file scopes]) := by
  obtain rfl := history.name_of_latest? name latest
  have present : mixins.get? mixin.name =
      some (mixin.usedFrom (history.uses mixin)) := by
    rw [follows.get?, latest, Option.map_some]
  let used := mixin.usedFrom (history.uses mixin ++ [file])
  have replaced : (mixins.replace used).get? mixin.name = some used :=
    get?_replace present
  refine ⟨follows.indexed.replace _, ?_, fun other => ?_⟩
  · rw [follows.indexed.names_replace, follows.names,
      history.names_concat_of_none _ rfl]
  · rw [History.latest?_concat, Call.definition?, Option.none_or]
    by_cases same : other = mixin.name
    · subst same
      rw [replaced, latest]
      simp [used, History.uses_concat, Call.definition?, Call.use?, fits]
    · rw [follows.indexed.get?_replace_of_ne used same, follows.get?]
      refine Option.map_congr fun found shown => ?_
      have apart : mixin.name ≠ found.name := by
        rw [history.name_of_latest? other shown]
        exact Ne.symm same
      simp [History.uses_concat, Call.definition?, Call.use?, apart]

theorem including (follows : mixins.Follows history) (name : Text)
    (arguments : List Text) (file : Option Text) (scopes : Scopes) :
    (mixins.including name arguments file scopes).1.Follows
      (history ++ [.expand name arguments file scopes]) := by
  rw [Mixins.including, expand_apply, follows.expanded]
  cases latest : history.latest? name with
  | none => exact follows.idle (by simp [latest])
  | some mixin =>
      dsimp only
      by_cases fits : arguments.length = mixin.parameters.length
      · rw [if_pos fits]
        exact follows.counted latest fits file scopes
      · rw [if_neg fits]
        exact follows.idle (by simp [latest, fits])

theorem apply (follows : mixins.Follows history) (call : Call) :
    (mixins.apply call).Follows (history ++ [call]) := by
  cases call with
  | define name parameters body file line =>
      exact follows.define name parameters body file line
  | expand name arguments file scopes =>
      exact follows.including name arguments file scopes

end Follows

theorem follows_history (history : History) :
    (({} : Mixins).after history).Follows history := by
  induction history using List.reverseRecOn with
  | nil =>
      refine ⟨indexed_empty, rfl, fun name => ?_⟩
      simp [after, get?, place?, History.latest?]
  | append_singleton history call ih =>
      rw [after_concat]
      exact ih.apply call

end Mixins

/-- After any calls, the index leads from each name to the entry that has it and
nowhere else, no name stands twice, and the names are in the order of their
first definition.  The entry of a name is its latest definition, with the number
of the inclusions that succeeded since then, the file of the first of them, and
whether all of them came from that file or from the file of the definition.  An
inclusion with as many arguments as the latest definition of its name has
parameters succeeds; any other fails, and leaves the registry and the scopes as
they are. -/
theorem registry_follows_history (history : Mixins.History) :
    let mixins := ({} : Mixins).after history
    (∀ name place, mixins.place? name = some place ↔
      (mixins.toList.map Mixin.name)[place]? = some name) ∧
    (mixins.toList.map Mixin.name).Nodup ∧
    mixins.toList.map Mixin.name = history.names ∧
    (∀ name, mixins.get? name =
      (history.latest? name).map fun mixin =>
        mixin.usedFrom (history.uses mixin)) ∧
    ∀ name arguments file scopes,
      (∃ mixin, history.latest? name = some mixin ∧
          arguments.length = mixin.parameters.length) ∧
        (∃ expansion after, Mixins.expand name arguments file (mixins, scopes) =
          .ok expansion after) ∨
      (∀ mixin, history.latest? name = some mixin →
          arguments.length ≠ mixin.parameters.length) ∧
        (∃ error, Mixins.expand name arguments file (mixins, scopes) =
          .error error (mixins, scopes)) := by
  intro mixins
  have follows : mixins.Follows history := Mixins.follows_history history
  refine ⟨follows.indexed, follows.indexed.nodup, follows.names, follows.get?,
    fun name arguments file scopes => ?_⟩
  have expanded := Mixins.expand_apply mixins name arguments file scopes
  rw [follows.expanded] at expanded
  cases latest : history.latest? name with
  | none =>
      rw [latest] at expanded
      exact .inr ⟨by simp, _, expanded⟩
  | some mixin =>
      rw [latest] at expanded
      dsimp only at expanded
      by_cases fits : arguments.length = mixin.parameters.length
      · rw [if_pos fits] at expanded
        exact .inl ⟨⟨mixin, rfl, fits⟩, _, _, expanded⟩
      · rw [if_neg fits] at expanded
        exact .inr ⟨by simp [fits], _, expanded⟩

/-- A mixin that was used, defined again and used from the file of its
definition too; an inclusion without the argument it takes does not count. -/
theorem registry_follows_history_redefined :
    let history : Mixins.History :=
      [.define ['m'] [] "x:1;".toList (some ['a']) 1,
        .expand ['m'] [] (some ['b']) {}, .define ['n'] [] [] none 2,
          .define ['m'] [['p']] "x:$p;".toList (some ['d']) 3,
        .expand ['m'] [['1']] (some ['g']) {}, .expand ['m'] [] (some ['h']) {},
        .expand ['m'] [['2']] (some ['d']) {}]
    let mixins := ({} : Mixins).after history
    mixins.toList.map Mixin.name = [['m'], ['n']] ∧
      mixins.place? ['n'] = some 1 ∧
      mixins.get? ['m'] = some
        { name := ['m'], parameters := [['p']], body := "x:$p;".toList,
          file := some ['d'], line := 3, uses := 2, firstUse :=
            some ['g'], usedInOneFile := true } ∧
      ∃ error, Mixins.expand ['m'] [] none (mixins, {}) =
        .error error (mixins, {}) := by
  intro history mixins
  obtain ⟨places, -, names, entries, inclusions⟩ :=
    registry_follows_history history
  have ordered : history.names = [['m'], ['n']] := by decide
  refine ⟨names.trans ordered, (places ['n'] 1).mpr ?_,
    (entries ['m']).trans rfl, ?_⟩
  · rw [names, ordered]
    rfl
  · rcases inclusions ['m'] [] none {} with ⟨⟨mixin, latest, fits⟩, -⟩
      | ⟨-, unchanged⟩
    · obtain rfl : _ = mixin := Option.some.inj latest
      exact absurd fits (by decide)
    · exact unchanged

end Stylesheet
