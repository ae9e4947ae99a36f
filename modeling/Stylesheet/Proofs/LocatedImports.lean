import Stylesheet.Proofs.Rebuilds

/-!
# Where the text of an import comes from

A loader over files tries the candidates of an import one after the other.  The
text is that of the first candidate that can be read, while the file that is
noted for the import is the first candidate that is a file.  These are the same,
unless a file that is not in UTF-8 was passed over.
-/

namespace Stylesheet

/-- Whether a text can be read from a path. -/
def Files.hasText (files : Files) (path : Text) : Bool :=
  match files.read path with
  | .ok _ => true
  | .error _ => false

theorem Files.Shows.hasText {files : Files} {node? : Text → Option Node}
    (shows : files.Shows node?) {path : Text} :
    files.hasText path = true ↔
      ∃ text : Text, node? path = some (.file text.utf8Encode) := by
  simp only [Files.hasText, ← shows.read]
  cases files.read path with
  | ok text => simp
  | error fault => simp

section Search

variable {α : Type} {strict loose : α → Bool} {items : List α}

/-- Two searches find the same, if what the looser one accepts does not come
first. -/
theorem find?_eq_find?_of_skipped
    (implies : ∀ item, strict item = true → loose item = true)
    (skipped : ∀ item ∈ items.takeWhile (!strict ·), loose item = false) :
    items.find? loose = items.find? strict := by
  induction items with
  | nil => rfl
  | cons item items ih =>
      cases accepted : strict item with
      | true => simp [accepted, implies item accepted]
      | false =>
          rw [List.takeWhile_cons_of_pos (by simp [accepted])] at skipped
          have refused := skipped item List.mem_cons_self
          simp only [List.find?_cons, accepted, refused]
          exact ih fun other member =>
            skipped other (List.mem_cons_of_mem _ member)

/-- If the looser search finds what the stricter one accepts, then it had
nothing to accept before. -/
theorem skipped_of_find? {found : α} (search : items.find? loose = some found)
    (accepted : strict found = true) :
    ∀ item ∈ items.takeWhile (!strict ·), loose item = false := by
  induction items with
  | nil => simp
  | cons item items ih =>
      rw [List.find?_cons] at search
      cases taken : loose item with
      | true =>
          rw [taken] at search
          obtain rfl : item = found := Option.some.inj search
          rw [List.takeWhile_cons_of_neg (by simp [accepted])]
          simp
      | false =>
          rw [taken] at search
          rw [List.takeWhile_cons]
          split
          · intro other member
            rcases List.mem_cons.mp member with rfl | later
            · exact taken
            · exact ih search other later
          · simp

end Search

namespace Loader

/-- The files that an import can mean, below the directory `root`. -/
def candidates (root path : Text) : List Text :=
  (Path.candidates path).map (Path.join root)

/-- The file that the text of an import is read from. -/
def source? (files : Files) (root path : Text) : Option Text :=
  (candidates root path).find? files.hasText

/-- No file is passed over in the search for the text of an import. -/
def SkipsNoFile (files : Files) (root path : Text) : Prop :=
  ∀ file ∈ (candidates root path).takeWhile (!files.hasText ·),
    files.isFile file = false

instance (files : Files) (root path : Text) :
    Decidable (SkipsNoFile files root path) :=
  inferInstanceAs (Decidable (∀ file ∈ _, files.isFile file = false))

section

variable {files : Files} {node? : Text → Option Node} {root path content : Text}

private theorem content_fetchFirst (files : Files) (paths : List Text) :
    (fetchFirst files paths).content =
      (paths.find? files.hasText).bind fun file =>
        (files.read file).toOption := by
  fun_induction fetchFirst files paths with
  | case1 => rfl
  | case2 path rest text found => simp [Files.hasText, found, Except.toOption]
  | case3 path rest missing ih => simp [Files.hasText, missing, ih]
  | case4 path rest fault _ unreadable fetched ih =>
      simp [Files.hasText, unreadable, fetched, ih]

theorem content_ofFiles :
    ((ofFiles files root).fetch path).content =
      (source? files root path).bind fun file => (files.read file).toOption :=
  content_fetchFirst files _

private theorem isSome_content :
    ((ofFiles files root).fetch path).content.isSome =
      (source? files root path).isSome := by
  rw [content_ofFiles]
  cases source : source? files root path with
  | none => rfl
  | some file =>
      have readable : files.hasText file = true := List.find?_some source
      unfold Files.hasText at readable
      split at readable
      · rename_i text read
        rw [Option.bind_some, read]
        rfl
      · contradiction

/-- The text of an import is that of the file it is read from. -/
theorem source?_of_content (shows : files.Shows node?)
    (found : ((ofFiles files root).fetch path).content = some content) :
    ∃ file, source? files root path = some file ∧
      node? file = some (.file content.utf8Encode) := by
  rw [content_ofFiles] at found
  obtain ⟨file, source, text⟩ := Option.bind_eq_some_iff.mp found
  refine ⟨file, source, (shows.read file content).mp ?_⟩
  cases read : files.read file with
  | ok other => simpa [read, Except.toOption] using text
  | error fault => simp [read, Except.toOption] at text

theorem locate_of_skipsNoFile (shows : files.Shows node?)
    (skips : SkipsNoFile files root path) :
    (ofFiles files root).locate path = source? files root path := by
  apply find?_eq_find?_of_skipped
  · intro file readable
    obtain ⟨text, there⟩ := shows.hasText.mp readable
    exact (shows.isFile file).mpr ⟨_, there⟩
  · exact skips

/-- The file that is noted has the text exactly if no file was passed over. -/
theorem locate_has_text_iff (shows : files.Shows node?)
    (found : ((ofFiles files root).fetch path).content = some content) :
    (∃ file, (ofFiles files root).locate path = some file ∧
      node? file = some (.file content.utf8Encode)) ↔
        SkipsNoFile files root path := by
  constructor
  · rintro ⟨file, located, there⟩
    exact skipped_of_find? located (shows.hasText.mpr ⟨content, there⟩)
  · intro skips
    rw [locate_of_skipsNoFile shows skips]
    exact source?_of_content shows found

end

end Loader

/-- The file that the text of an import was read from. -/
def Event.source? (files : Files) (root : Text) : Event → Option Text
  | .importing path => Loader.source? files root path
  | _ => none

private theorem Event.located?_eq_source? {files : Files}
    {node? : Text → Option Node} {root : Text} (shows : files.Shows node?)
    {event : Event}
    (skips : ∀ path, event = .importing path →
      Loader.SkipsNoFile files root path) :
    event.located? (Loader.ofFiles files root) = event.source? files root := by
  cases event with
  | importing path =>
      rw [located?, source?,
        Loader.locate_of_skipsNoFile shows (skips path rfl),
        Loader.isSome_content]
      cases Loader.source? files root path with
      | none => rfl
      | some file => rfl
  | _ => rfl

/-- A text that is found for an import was read from one of the candidates.  The
file that is located for the import is one with that text exactly if no file was
passed over, which means one that is not in UTF-8.  In this case an import notes
the file that it splices in, and the dependencies of a compilation are the files
that the texts of its imports were read from. -/
theorem located_files_have_texts {files : Files} {node? : Text → Option Node}
    (shows : files.Shows node?) (root : Text) (options : Options) :
    let loader := Loader.ofFiles files root
    let environment : Environment := { options, loader }
    (∀ path content, (loader.fetch path).content = some content →
      ((∃ located, loader.locate path = some located ∧
          node? located = some (.file content.utf8Encode)) ↔
        Loader.SkipsNoFile files root path) ∧
      ∃ file, Loader.source? files root path = some file ∧
        node? file = some (.file content.utf8Encode) ∧
        (Loader.SkipsNoFile files root path → ∀ state, ∃ sheet log,
          Compile.importFile environment path state =
            Compile.splice
              { text := Comment.strip content, file := some path, line := 1 }
              { state with sheet, log, dependencies := Path.note
                             state.dependencies file })) ∧
    ∀ fuel source name,
      let compilation := (Compilation.process environment fuel {} source name).2
      (∀ path, .importing path ∈ compilation.log.toList →
        Loader.SkipsNoFile files root path) →
      compilation.dependencies =
        Path.distinct
          (compilation.log.toList.filterMap (Event.source? files root)) := by
  intro loader environment
  constructor
  · intro path content found
    refine ⟨Loader.locate_has_text_iff shows found, ?_⟩
    obtain ⟨file, source, there⟩ := Loader.source?_of_content shows found
    refine ⟨file, source, there, fun skips state => ?_⟩
    have located : loader.locate path = some file :=
      (Loader.locate_of_skipsNoFile shows skips).trans source
    let noted := Compile.noteImport environment path state
    refine ⟨noted.sheet, noted.log, ?_⟩
    rw [Compile.importFile_apply, found, located]
    rfl
  · intro fuel source name compilation skips
    have fresh : Compilation.Tracked loader {} := rfl
    have tracked : compilation.Tracked loader := fresh.process fuel source name
    rw [tracked, Log.located]
    apply congrArg
    apply List.filterMap_congr
    rintro event member
    apply Event.located?_eq_source? shows
    rintro path rfl
    exact skips path member

namespace LocatedSample

/-- A directory has the name that is tried first. -/
def tree : FileTree :=
  (FileTree.insert {} "a.scss/".toList ⟨#[]⟩).insert "_a.scss".toList
    "$x: 1;".toUTF8

/-- A file that is not in UTF-8 has the name that is tried first. -/
def garbled : FileTree :=
  (FileTree.insert {} "a.scss".toList ⟨#[0xff]⟩).insert "_a.scss".toList
    "$x: 1;".toUTF8

end LocatedSample

open LocatedSample in
/-- A directory can be passed over. -/
theorem located_files_have_texts_directory :
    tree.files.Shows tree.at? ∧ Loader.SkipsNoFile tree.files [] ['a'] ∧
    ∃ located, (Loader.ofFiles tree.files []).locate ['a'] = some located ∧
      tree.at? located = some (.file "$x: 1;".toList.utf8Encode) := by
  have skips : Loader.SkipsNoFile tree.files [] ['a'] := by decide +kernel
  have facts :=
    (located_files_have_texts tree.shows [] {}).1 ['a'] "$x: 1;".toList
    (by decide +kernel)
  exact ⟨tree.shows, skips, facts.1.mpr skips⟩

open LocatedSample in
/-- The text is read from one file, and another one is located and noted. -/
theorem other_file_located :
    let loader := Loader.ofFiles garbled.files []
    (loader.fetch ['a']).content = some "$x: 1;".toList ∧
    loader.locate ['a'] = some "a.scss".toList ∧
    (¬ ∃ located, loader.locate ['a'] = some located ∧
      garbled.at? located = some (.file "$x: 1;".toList.utf8Encode)) ∧
    (Compilation.process { loader } 9 {} "@import 'a';".toList
      none).2.dependencies =
      ["a.scss".toList] := by
  intro loader
  have located : loader.locate ['a'] = some "a.scss".toList := by decide +kernel
  refine ⟨by decide +kernel, located, ?_, by decide +kernel⟩
  rintro ⟨file, found, there⟩
  obtain rfl : "a.scss".toList = file :=
    Option.some.inj (located.symm.trans found)
  have unreadable : ¬ garbled.files.hasText "a.scss".toList = true := by
    decide +kernel
  exact unreadable (garbled.shows.hasText.mpr ⟨_, there⟩)

end Stylesheet
