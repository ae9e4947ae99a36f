import Stylesheet.Proofs.WatchedPlaces

/-!
# Taking back a watch

A path is turned into a place when it is watched and again when it is taken
back, and the files may have changed in between.  The place depends on the path
and the working directory alone, so taking a path back never drops another
place.  But a path that leads nowhere any more is taken as it is given, and then
what was watched through it stays watched, unless it was spelled canonically.
-/

namespace Stylesheet

namespace Place

/-- The place that parts of a path lead to, whether it is there or not. -/
def along (place : Place) : List Text → Option Place
  | [] => some place
  | part :: rest =>
      if Path.isIdle part then along place rest
      else if Path.isUp part then along place.dropLast rest
      else (FileName.of? part).bind fun name => along (place ++ [name]) rest

private theorem along_names (place names : Place) :
    place.along (names.map FileName.text) = some (place ++ names) := by
  induction names generalizing place with
  | nil => simp [along]
  | cons name names ih =>
      simp [along, name.not_isIdle, name.not_isUp, ih]

private theorem filter_insert (place : Place) (places : List Place) :
    (insert place places).filter (· != place) = places.filter (· != place) := by
  induction places with
  | nil => simp [insert]
  | cons first rest ih =>
      unfold insert
      split
      · simp
      · rfl
      · rw [List.filter_cons, List.filter_cons, ih]

end Place

namespace FileTree

section

variable {tree later : FileTree} {place target other : Place}
  {parts : List Text} {path : Text}

theorem along_of_walk (led : tree.walk place parts = .ok target) :
    place.along parts = some target := by
  fun_induction tree.walk place parts with
  | case1 place => rw [Place.along, Except.ok.inj led]
  | case2 | case3 | case6 | case8 => contradiction
  | case4 place part rest directory idle ih =>
      rw [Place.along, if_pos idle, ih led]
  | case5 place part rest directory named up ih =>
      rw [Place.along, if_neg named, if_pos up, ih led]
  | case7 place part rest directory named down name proper next there ih =>
      rw [Place.along, if_neg named, if_neg down, proper, Option.bind_some,
        ih led]

/-- A path leads to the same place in every tree in which it leads somewhere, as
long as the working directory is the same. -/
theorem resolve_unique (based : later.base = tree.base)
    (led : tree.resolve path = .ok target)
    (leading : later.resolve path = .ok other) : other = target := by
  have started : later.start path = tree.start path := by
    rw [start, start, based]
  have first := along_of_walk (resolve_ok led)
  have second := along_of_walk (resolve_ok leading)
  rw [started, first] at second
  exact (Option.some.inj second).symm

/-- A spelling of a canonical path leads to no other place. -/
theorem eq_of_same_path (led : tree.resolve path = .ok target)
    (same : Path.same path other.path = true) : other = target := by
  obtain ⟨absolute, names⟩ := Path.of_same same
  have started : tree.start path = [] := if_pos absolute
  have walked := along_of_walk (walk_filter (resolve_ok led))
  rw [← Path.names, started, names, Place.names_path, Place.along_names]
    at walked
  exact Option.some.inj walked

/-- The later tree has the same working directory and all directories of the
tree. -/
structure DirectoriesKept (tree later : FileTree) : Prop where
  base : later.base = tree.base
  directory : ∀ place, tree.node? place = some .directory →
    later.node? place = some .directory

theorem DirectoriesKept.refl (tree : FileTree) : tree.DirectoriesKept tree :=
  ⟨rfl, fun _ => id⟩

theorem DirectoriesKept.trans {middle : FileTree}
    (first : tree.DirectoriesKept middle)
    (second : middle.DirectoriesKept later) :
    tree.DirectoriesKept later :=
  ⟨second.base.trans first.base, fun place directory =>
    second.directory place (first.directory place directory)⟩

theorem DirectoriesKept.walk (kept : tree.DirectoriesKept later)
    (led : tree.walk place parts = .ok target)
    (there : (later.node? target).isSome) :
    later.walk place parts = .ok target := by
  fun_induction tree.walk place parts with
  | case1 place => exact led
  | case2 | case3 | case6 | case8 => contradiction
  | case4 place part rest directory idle ih =>
      rw [walk_idle (kept.directory place directory) idle]
      exact ih led
  | case5 place part rest directory named up ih =>
      rw [walk_up (kept.directory place directory) named up]
      exact ih led
  | case7 place part rest directory named down name proper next found ih =>
      -- The next place is the last one, or a directory on the way.
      have present : (later.node? next).isSome := by
        cases rest with
        | nil => exact Except.ok.inj led ▸ there
        | cons first rest =>
            rw [FileTree.walk] at led
            split at led
            · contradiction
            · contradiction
            · rename_i onWay
              rw [kept.directory next onWay]
              rfl
      obtain rfl := text_of_of? proper
      rw [walk_down (kept.directory place directory) present]
      exact ih led

/-- While no directory is removed, a path leads somewhere as long as its place
is there. -/
theorem DirectoriesKept.resolve_iff (kept : tree.DirectoriesKept later)
    (led : tree.resolve path = .ok target) :
    (∃ other, later.resolve path = .ok other) ↔
      (later.node? target).isSome := by
  constructor
  · rintro ⟨other, leading⟩
    rw [← resolve_unique kept.base led leading]
    exact (holds_of_resolve leading).there
  · intro there
    refine ⟨target, ?_⟩
    unfold resolve at led ⊢
    split at led
    · contradiction
    · rename_i nonempty
      rw [if_neg nonempty, start, kept.base]
      exact kept.walk led there

end

/-- What can happen to a file. -/
inductive Change where
  | write (path : Text) (bytes : ByteArray)
  | remove (path : Text)

/-- The tree after a change, or as it is if the change is not possible. -/
def change (tree : FileTree) : Change → FileTree
  | .write path bytes =>
      match tree.write path bytes with
      | .ok written => written
      | .error _ => tree
  | .remove path => if tree.isFile path then tree.remove path else tree

/-- The tree after some changes. -/
def after (tree : FileTree) (changes : List Change) : FileTree :=
  changes.foldl change tree

section

variable {tree : FileTree} {place other : Place}

private theorem node?_set_of_ne (node : Node) (apart : other ≠ place) :
    (tree.set place node).node? other = tree.node? other := by
  have skipped : (other == place) = false := by simpa using apart
  simp only [node?, set, List.lookup_cons, skipped, lookup_filter_ne apart]

theorem directoriesKept_write {written : FileTree} {path : Text}
    {bytes : ByteArray} (done : tree.write path bytes = .ok written) :
    tree.DirectoriesKept written := by
  unfold write at done
  split at done
  · contradiction
  · dsimp only at done
    split at done
    · contradiction
    · rename_i folder led
      split at done
      · contradiction
      · rename_i name proper
        split at done
        · contradiction
        · rename_i free
          rw [← Except.ok.inj done]
          refine ⟨rfl, fun place directory => ?_⟩
          have apart : place ≠ folder ++ [name] := by
            rintro rfl
            exact free directory
          rw [node?_set_of_ne _ apart]
          exact directory

theorem directoriesKept_remove {path : Text} (file : tree.isFile path = true) :
    tree.DirectoriesKept (tree.remove path) := by
  unfold isFile at file
  unfold FileTree.remove
  split at file
  · contradiction
  · rename_i target led
    refine ⟨rfl, fun place directory => ?_⟩
    have apart : place ≠ target := by
      rintro rfl
      simp [directory] at file
    simpa only [node?, lookup_filter_ne apart] using directory

theorem directoriesKept_change (change : Change) :
    tree.DirectoriesKept (tree.change change) := by
  cases change with
  | write path bytes =>
      unfold FileTree.change
      dsimp only
      split
      · rename_i written done
        exact directoriesKept_write done
      · exact .refl tree
  | remove path =>
      unfold FileTree.change
      dsimp only
      split
      · rename_i file
        exact directoriesKept_remove file
      · exact .refl tree

/-- Files come and go, but directories stay. -/
theorem directoriesKept_after (tree : FileTree) (changes : List Change) :
    tree.DirectoriesKept (tree.after changes) := by
  induction changes generalizing tree with
  | nil => exact .refl tree
  | cons change changes ih =>
      exact (directoriesKept_change change).trans (ih (tree.change change))

end

end FileTree

namespace Watch

section

variable {watch : Watch} {tree later : FileTree} {path : Text}
  {place other : Place}

private theorem eq_addPlace_of_add {added : Watch}
    (done : watch.add tree.system path = .ok added) :
    ∃ place, tree.resolve path = .ok place ∧ watch.addPlace place = added := by
  rw [add, FileTree.canonical_system] at done
  split at done
  · rename_i place led
    exact ⟨place, led, Except.ok.inj done⟩
  · contradiction

/-- A path that leads somewhere, or that is a spelling of the canonical path of
what it led to, is taken back. -/
theorem remove_of_known (based : later.base = tree.base)
    (led : tree.resolve path = .ok place)
    (known : (∃ target, later.resolve path = .ok target) ∨
      Path.same path place.path = true) :
    watch.remove later.system path = ⟨watch.places.filter (· != place)⟩ := by
  rw [remove, FileTree.canonical_system]
  cases leading : later.resolve path with
  | ok target => rw [FileTree.resolve_unique based led leading]
  | error fault =>
      have same : Path.same path place.path = true := by
        simpa [leading] using known
      apply congrArg Watch.mk
      apply List.filter_congr
      intro other _
      rw [Bool.eq_iff_iff, Bool.not_eq_true', bne_iff_ne,
        ← Bool.not_eq_true, not_iff_not]
      exact ⟨FileTree.eq_of_same_path led, fun equal => equal ▸ same⟩

/-- Any other path changes nothing. -/
theorem remove_of_unknown (led : tree.resolve path = .ok place)
    (unknown : ¬ ((∃ target, later.resolve path = .ok target) ∨
      Path.same path place.path = true)) :
    watch.remove later.system path = watch := by
  obtain ⟨lost, unlike⟩ := not_or.mp unknown
  rw [remove, FileTree.canonical_system]
  cases leading : later.resolve path with
  | ok target => exact absurd ⟨target, leading⟩ lost
  | error fault =>
      apply congrArg Watch.mk
      apply List.filter_eq_self.mpr
      intro other _
      rw [Bool.not_eq_true', ← Bool.not_eq_true]
      intro same
      exact unlike (FileTree.eq_of_same_path led same ▸ same)

theorem not_mem_remove_iff (based : later.base = tree.base)
    (led : tree.resolve path = .ok place) :
    place ∉ ((watch.addPlace place).remove later.system path).places ↔
      (∃ target, later.resolve path = .ok target) ∨
        Path.same path place.path = true := by
  by_cases known : (∃ target, later.resolve path = .ok target) ∨
      Path.same path place.path = true
  · rw [remove_of_known based led known]
    simp [known]
  · rw [remove_of_unknown led known, mem_addPlace]
    simp [known]

private theorem mem_remove_of_ne (based : later.base = tree.base)
    (led : tree.resolve path = .ok place) (apart : other ≠ place) :
    other ∈ (watch.remove later.system path).places ↔ other ∈ watch.places := by
  by_cases known : (∃ target, later.resolve path = .ok target) ∨
      Path.same path place.path = true
  · rw [remove_of_known based led known]
    simp [apart]
  · rw [remove_of_unknown led known]

private theorem remove_eq_of_new (based : later.base = tree.base)
    (led : tree.resolve path = .ok place)
    (known : (∃ target, later.resolve path = .ok target) ∨
      Path.same path place.path = true)
    (new : place ∉ watch.places) :
    (watch.addPlace place).remove later.system path = watch := by
  rw [remove_of_known based led known]
  apply congrArg Watch.mk
  refine (Place.filter_insert place watch.places).trans ?_
  apply List.filter_eq_self.mpr
  intro other member
  rw [bne_iff_ne]
  rintro rfl
  exact new member

end

end Watch

/-- A path that was watched is taken back from the same working directory, after
the files have changed in any way.  No place but that of the path is dropped.
That place is dropped exactly if the path still leads somewhere or is a spelling
of the canonical path, and if it was not watched before, the watch is then as it
was.  If files were created and removed only, the path leads somewhere as long
as what was watched is there. -/
theorem unwatch_undoes_watch {watch added : Watch} {tree : FileTree}
    {path : Text} (done : watch.add tree.system path = .ok added) :
    ∃ place, tree.resolve path = .ok place ∧ place ∈ added.places ∧
      (∀ later : FileTree, later.base = tree.base →
        let removed := added.remove later.system path
        (∀ other, other ≠ place →
          (other ∈ removed.places ↔ other ∈ added.places)) ∧
        (place ∉ removed.places ↔
          (∃ target, later.resolve path = .ok target) ∨
            Path.same path place.path = true) ∧
        (place ∉ removed.places → place ∉ watch.places → removed = watch)) ∧
      ∀ changes : List FileTree.Change,
        let later := tree.after changes
        later.base = tree.base ∧
        (place ∉ (added.remove later.system path).places ↔
          (later.node? place).isSome ∨ Path.same path place.path = true) := by
  obtain ⟨place, led, rfl⟩ := Watch.eq_addPlace_of_add done
  refine ⟨place, led, Watch.mem_addPlace.mpr (.inl rfl), ?_, ?_⟩
  · intro later based removed
    have gone := @Watch.not_mem_remove_iff watch _ _ _ _ based led
    refine ⟨fun other => Watch.mem_remove_of_ne based led, gone, ?_⟩
    intro absent new
    exact Watch.remove_eq_of_new based led (gone.mp absent) new
  · intro changes later
    have kept := tree.directoriesKept_after changes
    refine ⟨kept.base, ?_⟩
    rw [Watch.not_mem_remove_iff kept.base led, kept.resolve_iff led]

namespace UnwatchSample

def h : FileName := ⟨['h'], rfl⟩

def d : FileName := ⟨['d'], rfl⟩

def a : FileName := ⟨['a'], rfl⟩

def b : FileName := ⟨['b'], rfl⟩

/-- A file in a directory of the working directory, and another file. -/
def tree : FileTree :=
  (FileTree.insert { base := [h] } "d/a".toList ⟨#[]⟩).insert "b".toList ⟨#[]⟩

/-- The file is removed and written again, and the other one is removed. -/
def changes : List FileTree.Change :=
  [.remove "d/a".toList, .write "../h/d/a".toList ⟨#[1]⟩, .remove "/h/b".toList]

end UnwatchSample

open UnwatchSample in
/-- A file that was removed and written again is taken back in the spelling it
was watched in. -/
theorem unwatch_undoes_watch_rewritten :
    let watch : Watch := ⟨[[h, b]]⟩
    ∃ added, watch.add tree.system "../h//d/a".toList = .ok added ∧
      added.remove (tree.after changes).system "../h//d/a".toList = watch := by
  intro watch
  have done : watch.add tree.system "../h//d/a".toList =
      .ok ⟨[[h, b], [h, d, a]]⟩ := by
    rfl
  refine ⟨_, done, ?_⟩
  obtain ⟨place, led, watched, facts, changed⟩ := unwatch_undoes_watch done
  obtain rfl : [h, d, a] = place := Except.ok.inj led
  have there : ((tree.after changes).node? [h, d, a]).isSome := by decide
  obtain ⟨based, gone⟩ := changed changes
  exact (facts (tree.after changes) based).2.2
    (gone.mpr (.inl there)) (by decide)

open UnwatchSample in
/-- A file that was removed stays watched, unless it is taken back in the
spelling that the watch has. -/
theorem removed_file_watched :
    let later := tree.after [.remove "b".toList]
    ∃ added, Watch.add {} tree.system "b".toList = .ok added ∧
      (added.remove later.system "b".toList).places = [[h, b]] ∧
      (added.remove later.system "/h/./b".toList).places = [] :=
  ⟨⟨[[h, b]]⟩, rfl, by decide, by decide⟩

end Stylesheet
