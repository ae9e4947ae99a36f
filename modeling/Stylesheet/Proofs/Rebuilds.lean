import Mathlib.Data.List.Induction
import Stylesheet.Proofs.Reading
import Stylesheet.Proofs.Reports
import Stylesheet.Proofs.WatchedPlaces

/-!
# Rebuilds depend on the files only

A rebuild starts from a compilation that has forgotten everything but its log,
and the log has no influence on what is compiled.  So the text or the error is
that of a new compilation, whatever happened before.  The files that are watched
afterwards are those of this build: the dependencies of a compilation can be
read off the imports in its log.
-/

namespace Stylesheet

attribute [ext] Compilation

namespace Compilation

variable (environment : Environment) (fuel : Nat)
  (compilation : Compilation) (log : Log)

theorem sheet_announce (file : Option Text) :
    ({ compilation with log }.announce environment file).sheet =
      (compilation.announce environment file).sheet := by
  unfold announce
  split
  · dsimp only
    split
    · rfl
    · rfl
  · rfl

private theorem sheet_process (source : Text) (file : Option Text) :
    ({ compilation with log }.process environment fuel source file).2.sheet =
      (compilation.process environment fuel source file).2.sheet := by
  have started :
      (({ compilation with log }.announce environment file).start
        source file).Alike
      ((compilation.announce environment file).start source file) := by
    obtain ⟨_, _, first⟩ :=
      announce_eq environment { compilation with log } file
    obtain ⟨_, _, second⟩ := announce_eq environment compilation file
    have sheet := sheet_announce environment compilation log file
    rw [first, second] at sheet ⊢
    exact ⟨rfl, sheet, rfl, rfl, .refl _, .refl _⟩
  obtain ⟨_, first⟩ :=
    process_eq environment fuel { compilation with log } source file
  obtain ⟨_, second⟩ := process_eq environment fuel compilation source file
  rw [first, second]
  exact (started.run environment fuel).state.sheet

/-- Compilations that differ in their logs only do the same. -/
theorem process_log (source : Text) (file : Option Text) :
    let result := compilation.process environment fuel source file
    ∃ final, { compilation with log }.process environment fuel source file =
      (result.1, { result.2 with log := final }) := by
  intro result
  have agree : environment.SameRules environment := ⟨⟨rfl, rfl, rfl⟩, rfl⟩
  have alone : ({ compilation with log } : Compilation).SameRules compilation :=
    ⟨rfl, rfl, rfl, rfl⟩
  obtain ⟨outcome, same⟩ := alone.process agree fuel source file
  refine ⟨({ compilation with log }.process environment fuel source file).2.log,
    Prod.ext outcome ?_⟩
  exact Compilation.ext same.scopes same.mixins
    (sheet_process environment fuel compilation log source file)
      same.dependencies rfl

private theorem processFile_log (files : Files) (path : Text) :
    let result := compilation.processFile environment fuel files path
    ∃ final, { compilation with log }.processFile environment fuel files path =
      (result.1, { result.2 with log := final }) := by
  unfold processFile
  split
  · exact process_log environment fuel compilation log _ _
  · exact ⟨_, rfl⟩

end Compilation

namespace Path

/-- Adds a path unless it is there in some spelling. -/
def note (paths : List Text) (path : Text) : List Text :=
  if paths.any (same path) then paths else paths ++ [path]

/-- The paths that are not another spelling of an earlier one. -/
def distinct (paths : List Text) : List Text :=
  paths.foldl note []

@[simp] theorem distinct_concat (paths : List Text) (path : Text) :
    distinct (paths ++ [path]) = note (distinct paths) path := by
  simp [distinct]

theorem mem_of_mem_distinct {paths : List Text} {path : Text}
    (member : path ∈ distinct paths) :
    path ∈ paths := by
  induction paths using List.reverseRecOn with
  | nil => exact member
  | append_singleton paths last ih =>
      rw [distinct_concat, note] at member
      rw [List.mem_append]
      split at member
      · exact .inl (ih member)
      · exact (List.mem_append.mp member).imp_left ih

/-- Every path is kept in some spelling. -/
theorem exists_same_mem_distinct {paths : List Text} {path : Text}
    (member : path ∈ paths) :
    ∃ other ∈ distinct paths, same path other = true := by
  induction paths using List.reverseRecOn with
  | nil => contradiction
  | append_singleton paths last ih =>
      rw [distinct_concat, note]
      rcases List.mem_append.mp member with earlier | added
      · obtain ⟨other, kept, spelled⟩ := ih earlier
        refine ⟨other, ?_, spelled⟩
        split
        · exact kept
        · exact List.mem_append_left _ kept
      · obtain rfl := List.mem_singleton.mp added
        split
        · rename_i there
          exact List.any_eq_true.mp there
        · exact
            ⟨path, List.mem_append_right _ List.mem_cons_self, by simp [same]⟩

end Path

/-- The file that an import was found in. -/
def Event.located? (loader : Loader) : Event → Option Text
  | .importing path =>
      if (loader.fetch path).content.isSome then loader.locate path else none
  | _ => none

private theorem Event.located?_eq_none {loader : Loader} {event : Event}
    (plain : event.isImport = false) :
    event.located? loader = none := by
  cases event with
  | importing path => contradiction
  | _ => rfl

/-- The files that imports were found in, in the order of the imports. -/
def Log.located (loader : Loader) (log : Log) : List Text :=
  log.toList.filterMap (Event.located? loader)

@[simp] theorem Log.located_add (loader : Loader) (log : Log) (event : Event) :
    (log.add event).located loader =
      log.located loader ++ (event.located? loader).toList := by
  cases found : event.located? loader with
  | none => simp [located, add, toList, found]
  | some file => simp [located, add, toList, found]

/-- The dependencies are the files of the imports in the log. -/
def Compilation.Tracked (loader : Loader) (compilation : Compilation) : Prop :=
  compilation.dependencies = Path.distinct (compilation.log.located loader)

theorem Compilation.Tracked.record {loader : Loader} {compilation : Compilation}
    {event : Event} (tracked : compilation.Tracked loader)
    (plain : event.located? loader = none) :
    ({ compilation with log := compilation.log.add event } :
      Compilation).Tracked loader := by
  simpa [Tracked, plain] using tracked

/-- One more import means at most one more dependency. -/
theorem Compilation.Tracked.distinct_located {loader : Loader}
    {compilation : Compilation} (tracked : compilation.Tracked loader)
    {log : Log} {found : Option Text}
    (located : log.located loader =
      compilation.log.located loader ++ found.toList) :
    Path.distinct (log.located loader) =
      found.elim compilation.dependencies
        (Path.note compilation.dependencies) := by
  rw [located, tracked]
  cases found with
  | none => exact congrArg Path.distinct (List.append_nil _)
  | some file => exact Path.distinct_concat _ file

namespace Compile

/-- Dependencies that were tracked before are so afterwards. -/
def KeepsTrack (loader : Loader) (before after : State) : Prop :=
  before.Tracked loader → after.Tracked loader

instance (loader : Loader) : IsPreorder State (KeepsTrack loader) where
  refl _ := id
  trans _ _ _ first second := second ∘ first

theorem allowsReading_keepsTrack (loader : Loader) :
    AllowsReading (KeepsTrack loader) where
  lookup _ _ tracked := tracked
  log _ _ plain tracked := tracked.record (Event.located?_eq_none plain)
  move _ _ tracked := tracked
  print _ _ tracked := tracked

section

variable {loader : Loader} (environment : Environment)

private theorem keepsTrack_expansion (name : Text) (list : Option Text) :
    Always (KeepsTrack loader) (expansion environment name list) := by
  have allows := allowsReading_keepsTrack loader
  exact (allows.resolveArguments environment list).bind fun arguments =>
    (allows.record rfl).bind fun _ =>
      (allows.comment environment _).bind fun _ =>
      .getThen fun state => (Always.check _).bind fun _ =>
        Always.bind (fun _ tracked => tracked) fun _ =>
          (allows.record rfl).bind fun _ => allows.splice _

private theorem located_noteImport (path : Text) (state : State) :
    (noteImport environment path state).log.located loader =
      state.log.located loader ++
        ((Event.importing path).located? loader).toList := by
  rw [← Log.located_add, noteImport]
  dsimp only
  generalize state.log.add (.importing path) = log
  induction (environment.loader.fetch path).unreadable generalizing log with
  | nil => rfl
  | cons candidate candidates ih =>
      rw [List.foldl_cons, ih, Log.located_add]
      exact List.append_nil _

private theorem keepsTrack_importFile (path : Text) :
    Always (KeepsTrack environment.loader) (importFile environment path) := by
  intro state tracked
  have allows := allowsReading_keepsTrack environment.loader
  have files :=
    tracked.distinct_located (located_noteImport environment path state)
  rw [importFile_apply]
  cases content : (environment.loader.fetch path).content with
  | none =>
      rw [Event.located?, content] at files
      exact files.symm
  | some text =>
      cases found : environment.loader.locate path with
      | none =>
          rw [Event.located?, content, found] at files
          exact allows.splice _ _ files.symm
      | some file =>
          rw [Event.located?, content, found] at files
          exact allows.splice _ _ files.symm

private theorem allowsStatements_keepsTrack :
    AllowsStatements environment (KeepsTrack environment.loader) where
  toAllowsReading := allowsReading_keepsTrack environment.loader
  opening _ _ tracked := tracked
  closing :=
    (allowsReading_keepsTrack _).closeBlock (fun _ _ tracked => tracked)
    fun _ _ tracked => tracked
  defining := (allowsReading_keepsTrack _).variableStatement environment
    fun _ _ tracked => tracked
  registering :=
    (allowsReading_keepsTrack _).mixinBody fun _ _ tracked => tracked
  including := keepsTrack_expansion environment
  importing := keepsTrack_importFile environment

end

end Compile

namespace Compilation

variable {environment : Environment} {compilation : Compilation}

theorem Tracked.announce (tracked : compilation.Tracked environment.loader)
    (file : Option Text) :
    (compilation.announce environment file).Tracked environment.loader := by
  have noted := @Tracked.record _ _ (.processing file) tracked rfl
  unfold Compilation.announce
  split
  · dsimp only
    split
    · exact noted
    · exact noted
  · exact noted

theorem Tracked.process (tracked : compilation.Tracked environment.loader)
    (fuel : Nat) (source : Text) (file : Option Text) :
    (compilation.process environment fuel source file).2.Tracked
      environment.loader := by
  have ended :=
    State.run_always (Compile.allowsStatements_keepsTrack environment).step fuel
    ((compilation.announce environment file).start source file)
      (tracked.announce file)
  unfold Compilation.process Compilation.processInput
  rw [TextInput.characters_ofText]
  dsimp only
  split
  · exact @Tracked.record _ (State.finish _) _ ended rfl
  · exact ended

/-- The dependencies of a compilation can be read off its log. -/
theorem Tracked.processFile (tracked : compilation.Tracked environment.loader)
    (fuel : Nat) (files : Files) (path : Text) :
    (compilation.processFile environment fuel files path).2.Tracked
      environment.loader := by
  unfold Compilation.processFile
  split
  · exact tracked.process fuel _ _
  · exact tracked.record rfl

end Compilation

/-- A compilation and a watch that are used together. -/
structure Session where
  watch : Watch := {}
  compilation : Compilation := {}

namespace Session

/-- What can be done in a session.  The files and the environment may be others
in every call. -/
inductive Call where
  | process (environment : Environment) (fuel : Nat) (source : Text)
      (file : Option Text)
  | processFile (environment : Environment) (fuel : Nat) (files : Files)
      (path : Text)
  | render (options : Options)
  | diagnose
  | reset
  | watch (system : FileSystem) (path : Text)
  | unwatch (system : FileSystem) (path : Text)
  | rebuild (environment : Environment) (fuel : Nat) (system : FileSystem)
      (entry : Text)

/-- The session after a call, whether it succeeded or failed. -/
def apply (session : Session) : Call → Session
  | .process environment fuel source file =>
      { session with
        compilation :=
          (session.compilation.process environment fuel source file).2 }
  | .processFile environment fuel files path =>
      { session with
        compilation :=
          (session.compilation.processFile environment fuel files path).2 }
  | .render options =>
      { session with compilation := (session.compilation.render options).2 }
  | .diagnose => { session with compilation := session.compilation.diagnose.2 }
  | .reset => { session with compilation := session.compilation.reset }
  | .watch system path =>
      match session.watch.add system path with
      | .ok watch => { session with watch }
      | .error _ => session
  | .unwatch system path =>
      { session with watch := session.watch.remove system path }
  | .rebuild environment fuel system entry =>
      let (_, watch, compilation) :=
        session.watch.rebuild environment fuel system session.compilation entry
      { watch, compilation }

/-- The session after some calls. -/
def after (calls : List Call) : Session :=
  calls.foldl apply {}

end Session

namespace Watch

variable (watch : Watch) (environment : Environment) (fuel : Nat)
  (system : FileSystem) (compilation : Compilation) (entry : Text)

/-- A rebuild gives the result of a new compilation and watches its files. -/
theorem rebuild_fresh :
    let rebuilt := watch.rebuild environment fuel system compilation entry
    let fresh :=
      Compilation.processFile environment fuel {} system.toFiles entry
    rebuilt.1.1 = fresh.1 ∧
    rebuilt.1.2 = (match fresh.1 with
      | .finished => (fresh.2.render environment.options).1
      | _ => []) ∧
    rebuilt.2.1 = watch.sync system (entry :: fresh.2.dependencies) := by
  intro rebuilt fresh
  obtain ⟨log, same⟩ := Compilation.processFile_log environment fuel {}
    compilation.log system.toFiles entry
  have started :
      compilation.reset.processFile environment fuel system.toFiles entry =
        (fresh.1, { fresh.2 with log }) := same
  simp only [rebuilt, rebuild, started]
  cases fresh.1 with
  | finished => exact ⟨rfl, rfl, rfl⟩
  | failed failure => exact ⟨rfl, rfl, rfl⟩
  | unfinished => exact ⟨rfl, rfl, rfl⟩

end Watch

private theorem Session.ordered_apply {session : Session}
    (ordered : session.watch.Ordered) (call : Call) :
    (session.apply call).watch.Ordered := by
  cases call with
  | watch system path =>
      simp only [apply]
      split
      · rename_i added done
        exact ordered.add done
      · exact ordered
  | unwatch system path => exact ordered.remove path
  | rebuild environment fuel system entry =>
      have moved := (session.watch.rebuild_fresh environment fuel system
        session.compilation entry).2.2
      simp only [apply, moved]
      exact ordered.sync
  | _ => exact ordered

private theorem Session.ordered_after (calls : List Call) :
    (Session.after calls).watch.Ordered := by
  suffices general : ∀ {session : Session}, session.watch.Ordered →
      (calls.foldl apply session).watch.Ordered from
    general List.Pairwise.nil
  induction calls with
  | nil => exact id
  | cons call calls ih => exact fun ordered => ih (ordered_apply ordered call)

/-- The loader finds texts in the given files, if in files at all. -/
def Loader.LocatesIn (loader : Loader) (files : Files) : Prop :=
  ∀ path file, loader.locate path = some file → files.isFile file = true

private theorem Loader.locatesIn_ofFiles (files : Files) (root : Text) :
    (Loader.ofFiles files root).LocatesIn files := by
  intro path file found
  exact List.find?_some found

theorem Loader.LocatesIn.isFile {loader : Loader} {files : Files}
    (locates : loader.LocatesIn files) {log : Log} {file : Text}
    (member : file ∈ log.located loader) : files.isFile file = true := by
  obtain ⟨event, -, found⟩ := List.mem_filterMap.mp member
  cases event with
  | importing path =>
      rw [Event.located?] at found
      split at found
      · exact locates path file found
      · contradiction
  | _ => contradiction

section

variable {system : FileSystem} {node? : Text → Option Node}

private theorem FileSystem.Shows.canonical_of_isFile
    (shows : system.Shows node?) {path : Text}
    (file : system.isFile path = true) :
    ∃ place, system.canonical path = .ok place := by
  obtain ⟨bytes, there⟩ := (shows.isFile path).mp file
  exact (shows.canonical path).mpr (by rw [there]; rfl)

/-- Further spellings of a file lead to no further places. -/
theorem FileSystem.Shows.canonical_distinct (shows : system.Shows node?)
    (spelled : system.IgnoresIdleParts) {files : List Text} {place : Place}
    (there : ∀ file ∈ files, system.isFile file = true) :
    (∃ path ∈ Path.distinct files, system.canonical path = .ok place) ↔
      ∃ path ∈ files, system.canonical path = .ok place := by
  refine ⟨?_, ?_⟩
  · rintro ⟨path, kept, led⟩
    exact ⟨path, Path.mem_of_mem_distinct kept, led⟩
  · rintro ⟨path, member, led⟩
    obtain ⟨other, kept, same⟩ := Path.exists_same_mem_distinct member
    obtain ⟨target, leading⟩ :=
      shows.canonical_of_isFile (there other (Path.mem_of_mem_distinct kept))
    obtain rfl := spelled path other place target same led leading
    exact ⟨other, kept, leading⟩

private theorem FileSystem.Shows.canonical_iff (shows : system.Shows node?)
    {path : Text} {place : Place} :
    system.canonical path = .ok place ↔
      (node? path).isSome ∧ system.canonical path = .ok place :=
  ⟨fun led => ⟨(shows.canonical path).mp ⟨place, led⟩, led⟩, And.right⟩

/-- Whatever was compiled and watched before, a rebuild gives the text, or the
error, of a new compilation.  It watches, each of them once, the canonical paths
of the entry and of the files that this build found imports in, as far as these
exist.  If idle parts of a path mean nothing, and imports are found in files of
the system, this holds in whatever spellings a file was imported. -/
theorem rebuild_depends_on_files (shows : system.Shows node?)
    (calls : List Session.Call) (environment : Environment) (fuel : Nat)
    (entry : Text) :
    let session := Session.after calls
    let rebuilt :=
      session.watch.rebuild environment fuel system session.compilation entry
    let fresh :=
      Compilation.processFile environment fuel {} system.toFiles entry
    let located := fresh.2.log.located environment.loader
    rebuilt.1.1 = fresh.1 ∧
    rebuilt.1.2 = (match fresh.1 with
      | .finished => (fresh.2.render environment.options).1
      | _ => []) ∧
    rebuilt.2.1.Ordered ∧
    (∀ place, place ∈ rebuilt.2.1.places ↔
      ∃ path ∈ entry :: Path.distinct located,
        (node? path).isSome ∧ system.canonical path = .ok place) ∧
    (system.IgnoresIdleParts → environment.loader.LocatesIn system.toFiles →
      ∀ place, place ∈ rebuilt.2.1.places ↔
        ∃ path ∈ entry :: located,
          (node? path).isSome ∧ system.canonical path = .ok place) := by
  intro session rebuilt fresh located
  obtain ⟨outcome, text, moved⟩ :=
    session.watch.rebuild_fresh environment fuel system
      session.compilation entry
  have fresh_tracked : Compilation.Tracked environment.loader {} := rfl
  have tracked : fresh.2.dependencies = Path.distinct located :=
    fresh_tracked.processFile fuel system.toFiles entry
  have members (place : Place) : place ∈ rebuilt.2.1.places ↔
      ∃ path ∈ entry :: Path.distinct located,
        system.canonical path = .ok place := by
    rw [← tracked, moved]
    exact Watch.mem_sync shows
  simp only [← shows.canonical_iff]
  refine
    ⟨outcome, text, moved ▸ (Session.ordered_after calls).sync, members, ?_⟩
  intro spelled locates place
  rw [members]
  simp only [List.mem_cons, exists_eq_or_imp]
  rw [shows.canonical_distinct spelled fun _ member => locates.isFile member]

end

namespace RebuildSample

def w : FileName := ⟨['w'], rfl⟩

def a : FileName := ⟨"a.scss".toList, rfl⟩

def b : FileName := ⟨"b.scss".toList, rfl⟩

/-- The entry imports a file in two spellings and fails afterwards. -/
def tree : FileTree :=
  (FileTree.insert { base := [w] } "a.scss".toList
    "@import 'b', '../w/b'; .a { w: $y; }".toUTF8).insert
    "b.scss".toList "$x: 1;".toUTF8

def environment : Environment :=
  { loader := .ofFiles tree.files [] }

/-- A definition of the variable that the entry lacks, and files that it does
not import. -/
def calls : List Session.Call :=
  [.process {} 9 "$y: 1; .b { v: $y; }".toList none,
    .watch tree.system ".".toList,
    .rebuild environment 9 tree.system "b.scss".toList,
    .rebuild environment 9 tree.system "c.scss".toList]

def session : Session :=
  Session.after calls

def rebuilt : (Outcome × Text) × Watch × Compilation :=
  session.watch.rebuild environment 9 tree.system session.compilation
    "/w/a.scss".toList

def fresh : Outcome × Compilation :=
  Compilation.processFile environment 9 {} tree.files "/w/a.scss".toList

end RebuildSample

open RebuildSample in
/-- The variable is not there after the rebuild, and the entry and its import
are watched. -/
theorem rebuild_depends_on_files_failing :
    tree.system.Shows tree.at? ∧ tree.system.IgnoresIdleParts ∧
    environment.loader.LocatesIn tree.files ∧
    rebuilt.1.1 = fresh.1 ∧
    rebuilt.1.1.message? = some (Error.undefinedVariable ['y']).message ∧
    (∀ place, place ∈ rebuilt.2.1.places ↔
      ∃ path ∈ "/w/a.scss".toList :: fresh.2.log.located environment.loader,
        (tree.at? path).isSome ∧ tree.resolve path = .ok place) ∧
    rebuilt.2.1.places = [[w, a], [w, b]] := by
  have locates : environment.loader.LocatesIn tree.files :=
    Loader.locatesIn_ofFiles tree.files []
  have facts := rebuild_depends_on_files tree.system_shows calls environment 9
    "/w/a.scss".toList
  exact ⟨tree.system_shows, tree.ignoresIdleParts, locates, facts.1,
    by decide +kernel, facts.2.2.2.2 tree.ignoresIdleParts locates,
    by decide +kernel⟩

end Stylesheet
