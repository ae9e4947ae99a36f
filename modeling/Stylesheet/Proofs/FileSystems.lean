import Stylesheet.File.Tree

/-!
# What paths lead to

Files are known by what stands at each path: nothing, a directory or a file.
A path has a canonical path if something stands there, and a canonical path is
its own.  File trees are file systems of this kind.  In a tree, two spellings of
a path lead to one place: idle parts can make a path fail, but not make it lead
elsewhere.
-/

namespace Stylesheet

/-- What stands at each path is nothing, a directory or a file: texts are read
exactly from the files in UTF-8, and files are told from everything else. -/
structure Files.Shows (files : Files) (node? : Text → Option Node) : Prop where
  read : ∀ path text,
    files.read path = .ok text ↔ node? path = some (.file text.utf8Encode)
  isFile : ∀ path,
    files.isFile path = true ↔ ∃ bytes, node? path = some (.file bytes)

/-- Exactly the paths at which something stands have a canonical path, which is
its own canonical path. -/
structure FileSystem.Shows (system : FileSystem) (node? : Text → Option Node) :
    Prop extends system.toFiles.Shows node? where
  canonical : ∀ path,
    (∃ place, system.canonical path = .ok place) ↔ (node? path).isSome
  idempotent : ∀ path place, system.canonical path = .ok place →
    system.canonical place.path = .ok place

/-- Spellings of a path that differ in idle parts have one canonical path, as
far as they have any. -/
def FileSystem.IgnoresIdleParts (system : FileSystem) : Prop :=
  ∀ first second place other, Path.same first second = true →
    system.canonical first = .ok place → system.canonical second = .ok other →
    place = other

private theorem Text.splitAt_eq_splitOn (separator : Char) (text : Text) :
    text.splitAt separator = text.splitOn separator := by
  induction text with
  | nil => rfl
  | cons c rest ih =>
      rw [splitAt, ih, List.splitOn_cons_eq_if_modifyHead]
      split
      · rfl
      · cases parts : rest.splitOn separator with
        | nil => exact absurd parts (List.splitOn_ne_nil _ _)
        | cons part parts => rfl

private theorem Text.not_mem_of_mem_splitAt {separator : Char}
    {text part : Text} (member : part ∈ text.splitAt separator) :
    separator ∉ part := by
  induction text generalizing part with
  | nil =>
      obtain rfl := List.mem_singleton.mp member
      exact List.not_mem_nil
  | cons c rest ih =>
      rw [splitAt] at member
      split at member
      · rcases List.mem_cons.mp member with rfl | later
        · exact List.not_mem_nil
        · exact ih later
      · rename_i other
        have apart : separator ≠ c := by
          rintro rfl
          simp at other
        split at member
        · obtain rfl := List.mem_singleton.mp member
          simpa using apart
        · rename_i first parts split
          rw [split] at ih
          rcases List.mem_cons.mp member with rfl | later
          · simp [apart, ih List.mem_cons_self]
          · exact ih (List.mem_cons_of_mem _ later)

namespace Path

/-- The parts of a path that are not idle. -/
def names (path : Text) : List Text :=
  (path.splitAt '/').filter (!isIdle ·)

private theorem splitAt_of_isAbsolute {path : Text}
    (absolute : isAbsolute path = true) :
    ∃ rest : Text, path.splitAt '/' = [] :: rest.splitAt '/' := by
  cases path with
  | nil => contradiction
  | cons c rest =>
      obtain rfl : c = '/' := by simpa [isAbsolute] using absolute
      exact ⟨rest, rfl⟩

theorem parts_of_isAbsolute {path : Text} (absolute : isAbsolute path = true) :
    parts path = ['/'] :: names path := by
  obtain ⟨rest, split⟩ := splitAt_of_isAbsolute absolute
  rw [parts, names, split]
  dsimp only
  rw [if_pos absolute, List.filter_cons_of_neg (by decide)]

theorem filter_parts {path : Text} (relative : isAbsolute path = false) :
    (parts path).filter (!isIdle ·) = names path := by
  unfold parts names
  cases split : path.splitAt '/' with
  | nil => rfl
  | cons first rest =>
      dsimp only
      rw [relative]
      split
      · contradiction
      · split
        · rename_i dot
          have idle : isIdle first = true := by simp [isIdle, dot]
          simp [idle, List.filter_filter]
        · simp [List.filter_filter]

theorem root_not_mem_parts {path : Text} (relative : isAbsolute path = false) :
    ['/'] ∉ parts path := by
  intro member
  have kept : ['/'] ∈ names path := by
    rw [← filter_parts relative]
    exact List.mem_filter.mpr ⟨member, by decide⟩
  have part : ['/'] ∈ path.splitAt '/' := (List.mem_filter.mp kept).1
  exact Text.not_mem_of_mem_splitAt part List.mem_cons_self

/-- Two spellings of a path start at the same place and have the same names. -/
theorem of_same {first second : Text} (same : same first second = true) :
    isAbsolute first = isAbsolute second ∧ names first = names second := by
  have spelled : parts first = parts second := by simpa [Path.same] using same
  cases absolute : isAbsolute first with
  | true =>
      rw [parts_of_isAbsolute absolute] at spelled
      cases other : isAbsolute second with
      | true =>
          rw [parts_of_isAbsolute other] at spelled
          exact ⟨rfl, List.tail_eq_of_cons_eq spelled⟩
      | false =>
          exact absurd (spelled ▸ List.mem_cons_self) (root_not_mem_parts other)
  | false =>
      cases other : isAbsolute second with
      | true =>
          rw [parts_of_isAbsolute other] at spelled
          have root : ['/'] ∈ parts first := spelled ▸ List.mem_cons_self
          exact absurd root (root_not_mem_parts absolute)
      | false =>
          rw [← filter_parts absolute, ← filter_parts other, spelled]
          exact ⟨rfl, rfl⟩

end Path

namespace FileName

theorem not_isIdle (name : FileName) : Path.isIdle name.text = false := by
  have proper := name.proper
  simp only [Path.isName, Bool.and_eq_true, Bool.not_eq_true'] at proper
  exact proper.1.1

theorem not_isUp (name : FileName) : Path.isUp name.text = false := by
  have proper := name.proper
  simp only [Path.isName, Bool.and_eq_true, Bool.not_eq_true'] at proper
  exact proper.1.2

private theorem slash_not_mem (name : FileName) : '/' ∉ name.text := by
  have proper := name.proper
  simp only [Path.isName, Bool.and_eq_true, Bool.not_eq_true'] at proper
  simpa using proper.2

@[simp] theorem of?_text (name : FileName) : of? name.text = some name :=
  dif_pos name.proper

end FileName

namespace Place

theorem splitAt_path (place : Place) :
    place.path.splitAt '/' = [] :: (if place.isEmpty then [[]]
      else place.map FileName.text) := by
  change [] :: Text.splitAt '/' _ = _
  rw [Text.splitAt_eq_splitOn]
  cases place with
  | nil => rfl
  | cons name place =>
      rw [List.splitOn_intercalate]
      · rfl
      · intro text member
        obtain ⟨name, -, rfl⟩ := List.mem_map.mp member
        exact name.slash_not_mem
      · simp

theorem names_path (place : Place) :
    Path.names place.path = place.map FileName.text := by
  rw [Path.names, splitAt_path, List.filter_cons_of_neg (by decide)]
  cases place with
  | nil => rfl
  | cons name place =>
      apply List.filter_eq_self.mpr
      intro text member
      obtain ⟨name, -, rfl⟩ := List.mem_map.mp member
      simp [name.not_isIdle]

end Place

namespace FileTree

variable {tree : FileTree} {place target : Place} {parts : List Text}
  {path : Text}

/-- What a path leads to. -/
def at? (tree : FileTree) (path : Text) : Option Node :=
  match tree.resolve path with
  | .ok place => tree.node? place
  | .error _ => none

theorem canonical_system (tree : FileTree) (path : Text) :
    tree.system.canonical path = tree.resolve path :=
  rfl

theorem shows (tree : FileTree) : tree.files.Shows tree.at? where
  read path text := by
    change tree.read path = .ok text ↔ _
    unfold read at?
    cases tree.resolve path with
    | error fault => simp
    | ok place =>
        dsimp only
        rcases tree.node? place with _ | _ | bytes
        · simp
        · simp
        · simp only [Option.some.injEq, Node.file.injEq, ← decode?_eq_some]
          cases decode? bytes with
          | none => simp
          | some decoded => simp
  isFile path := by
    change tree.isFile path = true ↔ _
    unfold isFile at?
    cases tree.resolve path with
    | error fault => simp
    | ok place =>
        dsimp only
        rcases tree.node? place with _ | _ | bytes
        · simp
        · simp
        · simp

theorem walk_idle {part : Text} {rest : List Text}
    (directory : tree.node? place = some .directory)
    (idle : Path.isIdle part = true) :
    tree.walk place (part :: rest) = tree.walk place rest := by
  rw [walk, directory]
  exact if_pos idle

theorem walk_up {part : Text} {rest : List Text}
    (directory : tree.node? place = some .directory)
    (named : ¬ Path.isIdle part = true) (up : Path.isUp part = true) :
    tree.walk place (part :: rest) = tree.walk place.dropLast rest := by
  rw [walk, directory]
  dsimp only
  rw [if_neg named, if_pos up]

theorem walk_down {name : FileName} {rest : List Text}
    (directory : tree.node? place = some .directory)
    (there : (tree.node? (place ++ [name])).isSome) :
    tree.walk place (name.text :: rest) = tree.walk (place ++ [name]) rest := by
  rw [walk, directory]
  dsimp only
  rw [if_neg (by simp [name.not_isIdle]), if_neg (by simp [name.not_isUp]),
    FileName.of?_text]
  exact if_pos there

theorem text_of_of? {part : Text} {name : FileName}
    (named : FileName.of? part = some name) : part = name.text := by
  unfold FileName.of? at named
  split at named
  · rw [← Option.some.inj named]
  · contradiction

/-- Idle parts do not matter on a way that leads somewhere. -/
theorem walk_filter (led : tree.walk place parts = .ok target) :
    tree.walk place (parts.filter (!Path.isIdle ·)) = .ok target := by
  fun_induction tree.walk place parts with
  | case1 => exact led
  | case2 | case3 | case6 | case8 => contradiction
  | case4 place part rest directory idle ih =>
      rw [List.filter_cons_of_neg (by simp [idle])]
      exact ih led
  | case5 place part rest directory named up ih =>
      rw [List.filter_cons_of_pos (by simp [named]), walk_up directory named up]
      exact ih led
  | case7 place part rest directory named down name proper next there ih =>
      rw [List.filter_cons_of_pos (by simp [named])]
      obtain rfl := text_of_of? proper
      rw [walk_down directory there]
      exact ih led

theorem resolve_ok (led : tree.resolve path = .ok target) :
    tree.walk (tree.start path) (path.splitAt '/') = .ok target := by
  unfold resolve at led
  split at led
  · contradiction
  · exact led

/-- Two spellings of a path that lead somewhere lead to the same place. -/
theorem ignoresIdleParts (tree : FileTree) : tree.system.IgnoresIdleParts := by
  intro first second place other same led leading
  obtain ⟨absolute, names⟩ := Path.of_same same
  have started : tree.start first = tree.start second := by
    rw [start, start, absolute]
  have left := walk_filter (resolve_ok led)
  have right := walk_filter (resolve_ok leading)
  rw [← Path.names, started, names] at left
  rw [← Path.names, left] at right
  exact Except.ok.inj right

/-- Something is at a place, and above it are directories. -/
structure Holds (tree : FileTree) (place : Place) : Prop where
  there : (tree.node? place).isSome
  above : ∀ upper name, upper ++ [name] <+: place →
    tree.node? upper = some .directory

theorem holds_of_prefix (within : place <+: tree.base) : tree.Holds place := by
  have inside {upper : Place} (shorter : upper <+: tree.base) :
      tree.node? upper = some .directory :=
    if_pos (List.isPrefixOf_iff_prefix.mpr shorter)
  refine ⟨by rw [inside within]; rfl, fun upper name shorter => inside ?_⟩
  exact (List.prefix_append upper [name]).trans (shorter.trans within)

private theorem holds_start (tree : FileTree) (path : Text) :
    tree.Holds (tree.start path) := by
  unfold start
  split
  · exact holds_of_prefix List.nil_prefix
  · exact holds_of_prefix List.prefix_rfl

theorem Holds.dropLast (holds : tree.Holds place) :
    tree.Holds place.dropLast := by
  rcases List.eq_nil_or_concat place with rfl | ⟨upper, name, rfl⟩
  · exact holds
  · rw [List.concat_eq_append, List.dropLast_concat] at *
    have directory := holds.above upper name List.prefix_rfl
    refine ⟨by rw [directory]; rfl, fun higher other shorter => ?_⟩
    exact holds.above higher other (shorter.trans (List.prefix_append _ _))

private theorem Holds.concat {name : FileName} (holds : tree.Holds place)
    (directory : tree.node? place = some .directory)
    (there : (tree.node? (place ++ [name])).isSome) :
    tree.Holds (place ++ [name]) := by
  refine ⟨there, fun upper other shorter => ?_⟩
  rcases List.prefix_concat_iff.mp shorter with same | higher
  · rw [(List.append_inj' same rfl).1]
    exact directory
  · exact holds.above upper other higher

/-- The place that a way leads to is there. -/
theorem Holds.walk (holds : tree.Holds place)
    (led : tree.walk place parts = .ok target) : tree.Holds target := by
  fun_induction tree.walk place parts with
  | case1 place => exact Except.ok.inj led ▸ holds
  | case2 | case3 | case6 | case8 => contradiction
  | case4 place part rest directory idle ih => exact ih holds led
  | case5 place part rest directory named up ih => exact ih holds.dropLast led
  | case7 place part rest directory named down name proper next there ih =>
      exact ih (holds.concat directory there) led

theorem holds_of_resolve (led : tree.resolve path = .ok target) :
    tree.Holds target :=
  (tree.holds_start path).walk (resolve_ok led)

theorem Holds.walk_names {names : List FileName}
    (holds : tree.Holds (place ++ names)) :
    tree.walk place (names.map FileName.text) = .ok (place ++ names) := by
  induction names generalizing place with
  | nil => simp [FileTree.walk]
  | cons name names ih =>
      rw [List.append_cons] at holds ⊢
      have directory : tree.node? place = some .directory :=
        holds.above place name (List.prefix_append _ _)
      have there : (tree.node? (place ++ [name])).isSome := by
        cases names with
        | nil => simpa using holds.there
        | cons next names =>
            rw [holds.above (place ++ [name]) next ⟨names, by simp⟩]
            rfl
      rw [List.map_cons, walk_down directory there]
      exact ih holds

/-- The canonical path of a place leads there. -/
theorem Holds.resolve_path (holds : tree.Holds place) :
    tree.resolve place.path = .ok place := by
  have root : tree.node? [] = some .directory := rfl
  change tree.walk [] (place.path.splitAt '/') = _
  rw [Place.splitAt_path, walk_idle root rfl]
  cases place with
  | nil => exact walk_idle root rfl
  | cons name place => exact @Holds.walk_names tree [] _ holds

/-- A tree is a file system in which canonical paths are as they should be. -/
theorem system_shows (tree : FileTree) : tree.system.Shows tree.at? where
  toShows := tree.shows
  canonical path := by
    change (∃ place, tree.resolve path = .ok place) ↔ _
    unfold at?
    cases led : tree.resolve path with
    | error fault => simp
    | ok place => simpa using (holds_of_resolve led).there
  idempotent _ _ led := (holds_of_resolve led).resolve_path

end FileTree

end Stylesheet
