import Stylesheet.Proofs.SourcesBelow

/-!
# Imports

An import puts the texts of its files in front of what is left to read, the last
one first.  Each file is then read on top of the files after it, up to its end,
so an import does what the files do when they are compiled one after another.
The one exception is a definition at the end of a file that nothing ends: it
runs on into the next file.
-/

namespace Stylesheet

/-- A path that can be written between single quotes: no quote in it or escape
before its end is in the way, and nothing of it is trimmed or filled in. -/
structure Quotable (path : Text) : Prop where
  filled : path ≠ []
  trimmed : path.trim = path
  plain : '\'' ∉ path
  closed : Quoting.after (.inside '\'') path = .inside '\''
  whole : Text.occurs ['#', '{'] path = false

instance (path : Text) : Decidable (Quotable path) :=
  decidable_of_iff (path ≠ [] ∧ path.trim = path ∧ '\'' ∉ path ∧
      Quoting.after (.inside '\'') path = .inside '\'' ∧
        Text.occurs ['#', '{'] path = false)
    ⟨fun ⟨filled, trimmed, plain, closed, whole⟩ =>
      ⟨filled, trimmed, plain, closed, whole⟩,
        fun ⟨filled, trimmed, plain, closed, whole⟩ =>
          ⟨filled, trimmed, plain, closed, whole⟩⟩

def quoted (path : Text) : Text :=
  '\'' :: (path ++ ['\''])

/-- Paths in quotes with commas between them. -/
def importList : List Text → Text
  | [] => []
  | [path] => quoted path
  | path :: paths => quoted path ++ ',' :: ' ' :: importList paths

/-- `@import 'a', 'b';` -/
def importStatement (paths : List Text) : Text :=
  "@import ".toList ++ importList paths ++ [';']

/-- The rest of a string in single quotes, for a position that stands in it. -/
inductive Quoting.Body : Quoting → Text → Prop where
  | done : Body (.inside '\'') []
  | char {quoting : Quoting} {c : Char} {text : Text}
      (within : quoting.isOutside = false)
      (other : c ≠ '\'') (body : Body (quoting.step c) text) :
        Body quoting (c :: text)

private theorem Quoting.body_of_closed {quoting : Quoting} {text : Text}
    (within : quoting = .inside '\'' ∨ quoting = .escaped '\'')
    (plain : '\'' ∉ text) (closed : quoting.after text = .inside '\'') :
    Body quoting text := by
  induction text generalizing quoting with
  | nil =>
      rw [Quoting.after_nil] at closed
      exact closed ▸ .done
  | cons c text ih =>
      have other : c ≠ '\'' := fun same => plain (by simp [same])
      refine .char (by rcases within with rfl | rfl <;> rfl) other
        (ih ?_ (fun member => plain (by simp [member])) closed)
      rcases within with rfl | rfl
      · rw [Quoting.step]
        split
        · exact .inr rfl
        · rw [if_neg (by simpa using other)]
          exact .inl rfl
      · exact .inl rfl

theorem Quotable.body {path : Text} (quotable : Quotable path) :
    Quoting.Body (.inside '\'') path :=
  Quoting.body_of_closed (.inl rfl) quotable.plain quotable.closed

namespace Quoting.Body

variable {quoting : Quoting} {text rest : Text}

theorem stripFrom (body : quoting.Body text) (previous : Option Char) :
    Comment.stripFrom (.code quoting) previous (text ++ '\'' :: rest) =
      text ++ '\'' :: Comment.stripFrom (.code .outside) (some '\'') rest := by
  induction body generalizing previous with
  | done =>
      rw [List.nil_append, Comment.stripFrom_keep (by simp)]
      rfl
  | @char quoting c text within other body ih =>
      rw [List.cons_append, Comment.stripFrom_keep, ih]
      · rfl
      · rintro rfl
        simp [Quoting.isOutside] at within

theorem spanUntil (body : quoting.Body text) (stop : Char → Bool)
    (hash : Bool) :
    Nesting.spanUntil stop { quoting, afterHash := hash }
      (text ++ '\'' :: rest) =
      text ++ '\'' :: Nesting.spanUntil stop {} rest := by
  induction body generalizing hash with
  | done =>
      simp [Nesting.spanUntil, Nesting.isTop, Nesting.step, Quoting.step,
        Quoting.isOutside]
  | @char quoting c text within other body ih =>
      rw [List.cons_append, Nesting.spanUntil, Nesting.isTop, within]
      simp [Nesting.step, within, ih]

theorem after (body : quoting.Body text) (hash : Bool) :
    Nesting.after { quoting, afterHash := hash } (text ++ '\'' :: rest) =
      Nesting.after {} rest := by
  induction body generalizing hash with
  | done => simp [Nesting.after, Nesting.step, Quoting.step, Quoting.isOutside]
  | @char quoting c text within other body ih =>
      have later := ih (c == '#')
      simp only [Nesting.after, List.foldl_cons, List.cons_append] at later ⊢
      rw [Nesting.step, within]
      exact later

theorem splitCommasFrom (body : quoting.Body text) {part : Text}
    {parts : List Text} (split : Text.splitCommasFrom {} rest = part :: parts) :
    Text.splitCommasFrom { quoting } (text ++ '\'' :: rest) =
      (text ++ '\'' :: part) :: parts := by
  induction body with
  | done =>
      simp [Text.splitCommasFrom, Grouping.isTop, Grouping.step, Quoting.step,
        Quoting.isOutside, split]
  | @char quoting c text within other body ih =>
      rw [List.cons_append, Text.splitCommasFrom, Grouping.isTop, within,
        Grouping.step, within]
      simp [ih]

end Quoting.Body

section

variable {path : Text} {paths : List Text}

theorem quoted_append (path rest : Text) :
    quoted path ++ rest = '\'' :: (path ++ '\'' :: rest) := by
  simp [quoted]

theorem stripFrom_quoted (quotable : Quotable path) (previous : Option Char)
    (rest : Text) :
    Comment.stripFrom (.code .outside) previous (quoted path ++ rest) =
      quoted path ++ Comment.stripFrom (.code .outside) (some '\'') rest := by
  rw [quoted_append, quoted_append, Comment.stripFrom_keep (by decide)]
  exact congrArg _ (quotable.body.stripFrom _)

theorem spanUntil_quoted (quotable : Quotable path) (stop : Char → Bool)
    (rest : Text) :
    Nesting.spanUntil stop {} (quoted path ++ rest) =
      quoted path ++ Nesting.spanUntil stop {} rest := by
  have still : Nesting.isTop {} '\'' = false := rfl
  rw [quoted_append, quoted_append, Nesting.spanUntil, still, Bool.false_and,
    if_neg (by decide)]
  exact congrArg _ (quotable.body.spanUntil stop false)

theorem after_quoted (quotable : Quotable path) (rest : Text) :
    Nesting.after {} (quoted path ++ rest) = Nesting.after {} rest := by
  rw [quoted_append]
  exact quotable.body.after false

theorem splitCommas_quoted (quotable : Quotable path) {rest part : Text}
    {parts : List Text} (split : Text.splitCommas rest = part :: parts) :
    Text.splitCommas (quoted path ++ rest) =
      (quoted path ++ part) :: parts := by
  have inner := quotable.body.splitCommasFrom split
  rw [quoted_append, quoted_append, Text.splitCommas, Text.splitCommasFrom]
  simp [Grouping.step, Quoting.step, Quoting.isOutside, isQuote, inner]

/-- No hole begins in one text and goes on in the next. -/
theorem occurs_append {text rest : Text} (apart : rest.head? ≠ some '{')
    (whole : Text.occurs ['#', '{'] text = false) :
    Text.occurs ['#', '{'] (text ++ rest) = Text.occurs ['#', '{'] rest := by
  induction text with
  | nil => rfl
  | cons c text ih =>
      rw [Text.occurs, Bool.or_eq_false_iff] at whole
      rw [List.cons_append, Text.occurs, ih whole.2]
      have first :
          List.isPrefixOf ['#', '{'] (c :: (text ++ rest)) = false := by
        cases text with
        | nil =>
            cases rest with
            | nil => simp [List.isPrefixOf]
            | cons d rest =>
                have other : '{' ≠ d :=
                  fun same => apart (congrArg some same.symm)
                simp [List.isPrefixOf, other]
        | cons d text => simpa [List.isPrefixOf] using whole.1
      rw [first, Bool.false_or]

theorem occurs_quoted (quotable : Quotable path) (rest : Text) :
    Text.occurs ['#', '{'] (quoted path ++ rest) =
      Text.occurs ['#', '{'] rest := by
  have inner := @occurs_append path ('\'' :: rest) (by simp) quotable.whole
  rw [quoted_append, Text.occurs, inner, Text.occurs]
  simp [List.isPrefixOf]

private theorem strip_importStatement
    (quotable : ∀ path ∈ paths, Quotable path) :
    Comment.strip (importStatement paths) = importStatement paths := by
  have list (previous : Option Char) :
      Comment.stripFrom (.code .outside) previous (importList paths ++ [';']) =
        importList paths ++ [';'] := by
    fun_induction importList paths generalizing previous with
    | case1 => rfl
    | case2 path => rw [stripFrom_quoted (quotable path (by simp))]; rfl
    | case3 path paths more ih =>
        have later := ih fun path member => quotable path (by simp [member])
        rw [List.append_assoc, stripFrom_quoted (quotable path (by simp)),
          List.cons_append, Comment.stripFrom_keep (by decide),
          List.cons_append]
        exact congrArg _ (congrArg _ (congrArg _ (later _)))
  have name : importStatement paths =
      "@import ".toList ++ (importList paths ++ [';']) :=
    List.append_assoc _ _ _
  rw [name, Comment.strip]
  simp [Comment.stripFrom_keep, Quoting.step, isQuote, list]

private theorem spanUntil_importList (quotable : ∀ path ∈ paths, Quotable path)
    (rest : Text) :
    Nesting.spanUntil [';', '}'].contains {} (importList paths ++ ';' :: rest) =
      importList paths := by
  fun_induction importList paths with
  | case1 => rfl
  | case2 path =>
      rw [spanUntil_quoted (quotable path (by simp))]
      exact List.append_nil _
  | case3 path paths more ih =>
      have later := ih fun path member => quotable path (by simp [member])
      rw [List.append_assoc, spanUntil_quoted (quotable path (by simp))]
      exact congrArg _ (congrArg _ (congrArg _ later))

private theorem after_importList (quotable : ∀ path ∈ paths, Quotable path) :
    Nesting.after {} (importList paths) = {} := by
  fun_induction importList paths with
  | case1 => rfl
  | case2 path =>
      have whole := after_quoted (quotable path (by simp)) []
      rwa [List.append_nil] at whole
  | case3 path paths more ih =>
      have later := ih fun path member => quotable path (by simp [member])
      rw [after_quoted (quotable path (by simp))]
      exact later

private theorem occurs_importList (quotable : ∀ path ∈ paths, Quotable path) :
    Text.occurs ['#', '{'] (importList paths) = false := by
  fun_induction importList paths with
  | case1 => rfl
  | case2 path =>
      have whole := occurs_quoted (quotable path (by simp)) []
      rwa [List.append_nil] at whole
  | case3 path paths more ih =>
      have later := ih fun path member => quotable path (by simp [member])
      rw [occurs_quoted (quotable path (by simp))]
      simpa [Text.occurs, List.isPrefixOf] using later

private theorem splitCommas_importList
    (quotable : ∀ other ∈ path :: paths, Quotable other) :
    Text.splitCommas (importList (path :: paths)) =
      quoted path :: paths.map fun other => ' ' :: quoted other := by
  induction paths generalizing path with
  | nil =>
      have split :=
        @splitCommas_quoted path (quotable path (by simp)) [] [] [] rfl
      simpa [importList] using split
  | cons next paths ih =>
      have later := @ih next fun other member => quotable other (by simp_all)
      have comma : Text.splitCommas (',' :: ' ' :: importList (next :: paths)) =
          [] :: (next :: paths).map fun other => ' ' :: quoted other := by
        rw [Text.splitCommas] at later ⊢
        simp [Text.splitCommasFrom, Grouping.isTop, Grouping.step, Quoting.step,
          Quoting.isOutside, isQuote, later]
      have split := splitCommas_quoted (quotable path (by simp)) comma
      rwa [List.append_nil] at split

/-- The path that one part of the list stands for. -/
def importPath (part : Text) : Except Error Text :=
  let path := (Text.unquote (Text.trim part)).trim
  if path.isEmpty then .error (.form .emptyImport) else .ok path

private theorem importPaths_eq (text : Text) :
    Compile.importPaths text = (Text.splitCommas text).mapM importPath :=
  rfl

theorem importPath_quoted (quotable : Quotable path) {gap : Text}
    (blank : ∀ c ∈ gap, isBlank c = true) :
    importPath (gap ++ quoted path) = .ok path := by
  have around := @Text.trim_around gap (quoted path) [] '\'' '\'' blank
    (by simp) rfl (by decide) (by simp [quoted, List.getLast?_cons]) (by decide)
  rw [List.append_nil] at around
  have inner : Text.unquote (quoted path) = path := by
    simp [Text.unquote, quoted, isQuote, quotable.plain]
  simp [importPath, around, inner, quotable.trimmed, quotable.filled]

private theorem importPaths_importList (filled : paths ≠ [])
    (quotable : ∀ path ∈ paths, Quotable path) :
    Compile.importPaths (importList paths) = .ok paths := by
  have more (paths : List Text) (quotable : ∀ path ∈ paths, Quotable path) :
      (paths.map fun path => ' ' :: quoted path).mapM importPath =
        .ok paths := by
    induction paths with
    | nil => rfl
    | cons path paths ih =>
        have first :=
          @importPath_quoted path (quotable path (by simp)) [' '] (by decide)
        rw [List.singleton_append] at first
        rw [List.map_cons, List.mapM_cons, first,
          ih fun path member => quotable path (by simp [member])]
        rfl
  obtain ⟨path, paths, rfl⟩ := List.exists_cons_of_ne_nil filled
  have first := @importPath_quoted path (quotable path (by simp)) [] (by simp)
  rw [List.nil_append] at first
  rw [importPaths_eq, splitCommas_importList quotable, List.mapM_cons, first,
    more paths fun path member => quotable path (by simp [member])]
  rfl

end

/-- A file that an import finds.  Nothing in it brings other text in. -/
structure ImportedFile (environment : Environment) where
  path : Text
  content : Text
  quotable : Quotable path
  found : (environment.loader.fetch path).content = some content
  inert : Inert (Comment.strip content)

namespace ImportedFile

variable {environment : Environment}

def source (file : ImportedFile environment) : Source where
  text := Comment.strip file.content
  file := some file.path
  line := 1

/-- The file as a stylesheet of its own. -/
def call (fuel : Nat) (file : ImportedFile environment) : Compilation.Call where
  source := file.content
  file := some file.path
  fuel := fuel

theorem quotable_paths (files : List (ImportedFile environment)) :
    ∀ path ∈ files.map ImportedFile.path, Quotable path := by
  intro path member
  obtain ⟨file, -, rfl⟩ := List.mem_map.mp member
  exact file.quotable

/-- The sources of files on top of a source.  An empty one is given up at
once. -/
def stack (base : Source) : List (ImportedFile environment) → List Source
  | [] => [base]
  | file :: files =>
      if file.source.text.isEmpty then stack base files
      else file.source :: stack base files

private theorem length_stack (base : Source)
    (files : List (ImportedFile environment)) :
    (stack base files).length ≤ files.length + 1 := by
  fun_induction stack base files with
  | case1 => simp
  | case2 file files empty ih =>
      rw [List.length_cons]
      omega
  | case3 file files filled ih =>
      rw [List.length_cons, List.length_cons]
      omega

end ImportedFile

namespace Cursor

/-- Only the lowest source may be empty when it is reached. -/
def Settled (sources : List Source) : Prop :=
  ∃ top below, sources = top :: below ∧ (top.text = [] → below = [])

theorem settled_stack {environment : Environment} (base : Source)
    (files : List (ImportedFile environment)) :
    Settled (ImportedFile.stack base files) := by
  fun_induction ImportedFile.stack base files with
  | case1 => exact ⟨base, [], rfl, fun _ => rfl⟩
  | case2 file files empty ih => exact ih
  | case3 file files filled ih =>
      exact ⟨file.source, _, rfl, fun empty => absurd (by simp [empty]) filled⟩

theorem Settled.ne_nil {sources : List Source} (settled : Settled sources) :
    sources ≠ [] := by
  obtain ⟨top, below, rfl, -⟩ := settled
  exact List.cons_ne_nil top below

variable {cursor : Cursor} {sources : List Source}

/-- Giving the current character back undoes what has been drawn. -/
theorem Draws.putBack (draws : cursor.Draws sources)
    (settled : Settled sources) :
    cursor.putBack.top :: cursor.putBack.below = sources ∧
      cursor.below.length + 1 = sources.length := by
  obtain ⟨top, below, rfl, drawn⟩ := draws
  obtain ⟨_, _, same, settled⟩ := settled
  obtain ⟨rfl, rfl⟩ := List.cons.inj same
  cases text : top.text with
  | nil =>
      obtain rfl := settled text
      simp only [draw_last text, Prod.mk.injEq] at drawn
      obtain ⟨current, rfl, under⟩ := drawn
      simp [Cursor.putBack, current, under]
  | cons c rest =>
      simp only [draw_cons text, Prod.mk.injEq] at drawn
      obtain ⟨current, same, under⟩ := drawn
      refine ⟨?_, by simp [under]⟩
      obtain ⟨whole, file, line⟩ := top
      obtain rfl : whole = c :: rest := text
      by_cases newline : c = '\n'
      all_goals simp [Cursor.putBack, current, same, under, newline]

theorem Draws.insert (draws : cursor.Draws sources) (settled : Settled sources)
    (room : sources.length < maxSources) (source : Source) :
    ∃ after, cursor.insert source = .ok after ∧
      after.Draws (source :: sources) := by
  obtain ⟨back, count⟩ := draws.putBack settled
  unfold Cursor.insert
  rw [if_neg (by omega)]
  refine ⟨_, rfl, source, sources, rfl, ?_⟩
  rw [← back]
  rfl

/-- An empty source is given up for the one below it. -/
theorem draws_cons_iff {source : Source} (empty : source.text = [])
    (more : sources ≠ []) :
    cursor.Draws (source :: sources) ↔ cursor.Draws sources := by
  obtain ⟨next, below, rfl⟩ := List.exists_cons_of_ne_nil more
  have fallen := draw_next empty next below
  constructor
  · rintro ⟨top, lower, same, drawn⟩
    obtain ⟨rfl, rfl⟩ := List.cons.inj same
    exact ⟨next, below, rfl, by rw [drawn, fallen]⟩
  · rintro ⟨top, lower, same, drawn⟩
    obtain ⟨rfl, rfl⟩ := List.cons.inj same
    exact ⟨source, next :: below, rfl, by rw [drawn, fallen]⟩

theorem draws_stack_iff {environment : Environment} {base : Source}
    {file : ImportedFile environment}
    {files : List (ImportedFile environment)} :
    cursor.Draws (ImportedFile.stack base (file :: files)) ↔
      cursor.Draws (file.source :: ImportedFile.stack base files) := by
  rw [ImportedFile.stack]
  split
  · rename_i empty
    exact
      (draws_cons_iff (by simpa using empty)
        (settled_stack base files).ne_nil).symm
  · exact .rfl

/-- A source is read on its own and on top of others in the same way. -/
theorem Draws.trails {source : Source} {other : Cursor}
    (alone : cursor.Draws [source]) (draws : other.Draws (source :: sources))
    (more : sources ≠ []) :
    Trails sources cursor other := by
  cases text : source.text with
  | nil =>
      refine .beyond alone.ready ?_ ((draws_cons_iff text more).mp draws)
      rw [current_eq_head? alone.ready, alone.pending]
      simp [textOf, text]
  | cons c rest =>
      obtain ⟨_, _, single, first⟩ := alone
      obtain ⟨rfl, rfl⟩ := List.cons.inj single
      obtain ⟨_, _, several, second⟩ := draws
      obtain ⟨rfl, rfl⟩ := List.cons.inj several
      simp only [draw_cons text, Prod.mk.injEq] at first second
      exact .within more first.1 second.1 (second.2.1.trans first.2.1.symm)
        first.2.2 second.2.2

end Cursor

open Cursor

namespace Compile

open State

variable {environment : Environment} {state : State} {base : Source}

/-- Importing a file puts its text in front, and notes what was done. -/
theorem importFile_draws (quiet : environment.options.debugComments = false)
    (file : ImportedFile environment) {files : List (ImportedFile environment)}
    (room : files.length + 1 < maxSources)
    (draws : state.cursor.Draws (ImportedFile.stack base files)) :
    ∃ dependencies log cursor, importFile environment file.path state =
        .ok ⟨⟩ { state with dependencies, log, cursor } ∧
      cursor.Draws (ImportedFile.stack base (file :: files)) := by
  have fits := ImportedFile.length_stack base files
  obtain ⟨after, inserted, drawn⟩ :=
    draws.insert (settled_stack base files) (by omega) file.source
  have landed := draws_stack_iff.mpr drawn
  have spliced (dependencies : List Text) (log : Log) :
      splice file.source { state with dependencies, log } =
        .ok ⟨⟩ { state with dependencies, log, cursor := after } := by
    simp only [splice, bind_apply, get_apply, inserted, check,
      pure_apply, modify_apply]
  rw [importFile_apply, file.found, noteImport, quiet]
  exact ⟨_, _, _, spliced _ _, landed⟩

/-- The files are put in front one by one, the last one first. -/
theorem importFiles_draws (quiet : environment.options.debugComments = false)
    {files : List (ImportedFile environment)} (few : files.length < maxSources)
    (draws : state.cursor.Draws [base]) :
    ∃ dependencies log cursor,
      (files.map ImportedFile.path).reverse.forM
        (importFile environment) state =
        .ok ⟨⟩ { state with dependencies, log, cursor } ∧
      cursor.Draws (ImportedFile.stack base files) := by
  induction files with
  | nil => exact ⟨state.dependencies, state.log, state.cursor, rfl, draws⟩
  | cons file files ih =>
      rw [List.length_cons] at few
      obtain ⟨dependencies, log, cursor, done, drawn⟩ := ih (by omega)
      obtain ⟨dependencies, log, cursor, last, drawn⟩ :=
        @importFile_draws environment
        { state with dependencies, log, cursor } base quiet file files few drawn
      refine ⟨dependencies, log, cursor, ?_, drawn⟩
      have split : (files.map ImportedFile.path).reverse.forM
          (importFile environment) >>=
            (fun _ => [file.path].forM (importFile environment)) =
          ((files.map ImportedFile.path).reverse ++ [file.path]).forM
            (importFile environment) :=
        List.forM_append.symm
      rw [List.map_cons, List.reverse_cons, ← split, bind_apply, done]
      simp only [List.forM, bind_apply, last]
      rfl

private theorem draws_at_end (here : state.At []) :
    state.cursor.Draws [state.cursor.top] ∧ state.cursor.top.text = [] := by
  have ended : state.cursor.current = none := by
    rw [current_eq_head? here.ready, here.pending]
    rfl
  obtain ⟨empty, alone⟩ := here.ready ended
  exact
    ⟨⟨state.cursor.top, [], rfl, by rw [draw_last empty, ended, alone]⟩, empty⟩

private theorem importDirective_reads {paths : List Text} (filled : paths ≠ [])
    (quotable : ∀ path ∈ paths, Quotable path)
    (here : state.At (importList paths ++ [';'])) :
    importDirective environment state =
      paths.reverse.forM (importFile environment)
      (state.pass ((importList paths).length + 1)) := by
  have read := reading_readUntil here (spanUntil_importList quotable [])
    (by rw [after_importList quotable]; rfl)
  have skipped := reading_skipChar here.pass
  have whole := fill_whole environment (occurs_importList quotable)
  simp only [importDirective, bind_apply, read, skipped, interpolate, whole,
    importPaths_importList filled quotable, check, pure_apply, pass_pass]

private theorem importStatement_eq (paths : List Text) :
    importStatement paths =
      '@' :: ("import".toList ++ ([' '] ++ (importList paths ++ [';']))) := by
  have name : "@import ".toList = '@' :: ("import".toList ++ [' ']) := by decide
  unfold importStatement
  rw [name]
  simp only [List.cons_append, List.append_assoc]

private theorem head_importList {paths : List Text} (filled : paths ≠ [])
    (rest : Text) :
    (importList paths ++ rest).head? = some '\'' := by
  fun_cases importList paths with
  | case1 => exact absurd rfl filled
  | case2 path => rfl
  | case3 path paths => rfl

/-- The statement is read as a whole, and then the files are in front of what
follows. -/
theorem step_importStatement (quiet : environment.options.debugComments = false)
    {files : List (ImportedFile environment)} (filled : files ≠ [])
    (few : files.length < maxSources)
    (here : state.At (importStatement (files.map ImportedFile.path))) :
    ∃ dependencies log cursor base,
      step environment state =
        .ok true { state with dependencies, log, cursor } ∧
        base.text = [] ∧ cursor.Draws (ImportedFile.stack base files) := by
  have quotable := ImportedFile.quotable_paths files
  have some : files.map ImportedFile.path ≠ [] := by simpa using filled
  rw [importStatement_eq] at here
  have first := head_importList some [';']
  have front : state.At (('@' :: ("import".toList ++ [' '])) ++
      (importList (files.map ImportedFile.path) ++ [';'])) := by
    simpa only [List.cons_append, List.append_assoc] using here
  have directed :=
    @directive_at state _ environment "import".toList [' '] here (by decide)
    (by decide) (by simp; decide) (by simp [first, isSpace])
  rw [if_neg (by decide), if_neg (by decide), if_pos (by decide)] at directed
  have read := @importDirective_reads environment _ _ some quotable front.pass
  have behind := front.pass.pass.passOne
  simp only [pass_pass, Nat.add_assoc] at directed read behind
  obtain ⟨drawn, empty⟩ := draws_at_end behind
  obtain ⟨dependencies, log, cursor, done, draws⟩ :=
    importFiles_draws quiet few drawn
  refine ⟨dependencies, log, cursor, _, ?_, empty, draws⟩
  have count : 1 + ("import".toList.length + [' '].length) =
    ('@' :: ("import".toList ++ [' '])).length := by decide
  rw [step_directive here, bind_apply, directed, count, read, done]
  rfl

end Compile

namespace Compilation

theorem start_at (compilation : Compilation) (source : Text)
    (file : Option Text) :
    (compilation.start source file).At (Comment.strip source) :=
  State.at_start rfl

/-- Compilations with the same output, variables and mixins. -/
structure SameResults (first second : Compilation) : Prop where
  sheet : first.sheet = second.sheet
  scopes : first.scopes = second.scopes
  mixins : first.mixins = second.mixins

/-- No definition runs on to the end of a stylesheet, except in the last one. -/
def EndsDefinitions (environment : Environment) : List Call → Compilation → Prop
  | [], _ => True
  | [_], _ => True
  | call :: calls, compilation =>
      State.EndsDefinitions environment call.fuel
          ((compilation.announce environment call.file).start
            call.source call.file) ∧
        EndsDefinitions environment calls
          (compilation.process environment call.fuel call.source call.file).2

theorem announce_quiet {environment : Environment}
    (quiet : environment.options.debugComments = false)
    (compilation : Compilation) (file : Option Text) :
    ∃ log, compilation.announce environment file =
      { compilation with log } := by
  unfold announce
  cases file with
  | none => exact ⟨_, rfl⟩
  | some name =>
      refine ⟨compilation.log.add (.processing (some name)), ?_⟩
      simp [quiet, record]

/-- A stylesheet that can be compiled is read to its end. -/
theorem run_of_finished {environment : Environment}
    {compilation : Compilation} {call : Call}
    (finished :
      (compilation.process environment call.fuel call.source call.file).1 =
        .finished) :
    ∃ last,
      ((compilation.announce environment call.file).start call.source
        call.file).run environment call.fuel = (.finished, last) ∧
      SameResults
        (compilation.process environment call.fuel call.source call.file).2
        last.finish := by
  obtain ⟨log, same⟩ :=
    process_eq environment call.fuel compilation call.source call.file
  rw [same] at finished ⊢
  exact ⟨_, Prod.ext finished rfl, rfl, rfl, rfl⟩

end Compilation

open Compile Compilation

section

variable {environment : Environment} {state : State} {base : Source}

private theorem follows_start
    (quiet : environment.options.debugComments = false)
    {compilation : Compilation} (file : ImportedFile environment)
    {files : List (ImportedFile environment)}
    (same : SameResults compilation state.toCompilation)
    (closed : state.blocks = [])
    (draws : state.cursor.Draws (ImportedFile.stack base (file :: files))) :
    State.Follows (ImportedFile.stack base files)
      ((compilation.announce environment (some file.path)).start file.content
        (some file.path))
      state := by
  obtain ⟨log, announced⟩ := announce_quiet quiet compilation (some file.path)
  rw [announced]
  refine ⟨same.scopes, same.sheet, same.mixins, closed.symm, ?_⟩
  exact Draws.trails ⟨file.source, [], rfl, rfl⟩ (draws_stack_iff.mp draws)
    (settled_stack base files).ne_nil

/-- Files on top of each other are read as they are when they are compiled one
after another. -/
theorem run_stack (quiet : environment.options.debugComments = false)
    (exhausted : base.text = []) {fuel : Nat}
    {files : List (ImportedFile environment)} {compilation : Compilation}
    (finished : ∀ outcome ∈
      (compilation.processAll environment
        (files.map (ImportedFile.call fuel))).1,
      outcome = .finished)
    (ended : compilation.EndsDefinitions environment
      (files.map (ImportedFile.call fuel)))
    (same : SameResults compilation state.toCompilation)
    (closed : state.blocks = [])
    (draws : state.cursor.Draws (ImportedFile.stack base files)) :
    ∃ enough last, last.blocks = [] ∧
      SameResults
        (compilation.processAll environment
          (files.map (ImportedFile.call fuel))).2
        last.toCompilation ∧
      ∀ more, state.run environment (enough + more + 1) =
        (.finished, last) := by
  induction files generalizing compilation state with
  | nil =>
      have here : state.At [] :=
        ⟨draws.ready,
          by simp [draws.pending, ImportedFile.stack, textOf, exhausted]⟩
      refine ⟨0, state, closed, same, fun more => ?_⟩
      rw [Nat.zero_add, State.run, step_ended here closed]
  | cons file files ih =>
      have first := finished _ List.mem_cons_self
      obtain ⟨last, ran, left⟩ :=
        @run_of_finished environment compilation (file.call fuel) first
      have follows := follows_start quiet file same closed draws
      -- Below the last file nothing is left, so a definition may run up to its
      -- end.
      have definite : textOf (ImportedFile.stack base files) = [] ∨
          State.EndsDefinitions environment fuel
            ((compilation.announce environment (some file.path)).start
              file.content (some file.path)) := by
        cases files with
        | nil => exact .inl (by simp [ImportedFile.stack, textOf, exhausted])
        | cons next files => exact .inr ended.1
      have later : Compilation.EndsDefinitions environment
          (files.map (ImportedFile.call fuel))
          (compilation.process environment fuel file.content
            (some file.path)).2 := by
        cases files with
        | nil => trivial
        | cons next files => exact ended.2
      obtain ⟨used, next, resumes, goes⟩ :=
        run_follows follows (by rw [(start_at _ _ _).pending]; exact file.inert)
          definite ran
      have resumed : SameResults
          (compilation.process environment fuel file.content (some file.path)).2
          next.toCompilation := by
        refine ⟨left.sheet.trans resumes.sheet, left.scopes.trans ?_,
          left.mixins.trans resumes.mixins⟩
        rw [State.finish, resumes.closed, ← resumes.scopes]
        rfl
      obtain ⟨enough, final, shut, results, ending⟩ :=
        ih
          (fun outcome member =>
            finished outcome (List.mem_cons_of_mem _ member)) later resumed
          resumes.blocks resumes.cursor
      refine ⟨used + enough, final, shut, results, fun more => ?_⟩
      rw [Nat.add_assoc used, goes, ending]

end

/-- Importing files does what compiling them one after another does, if that
succeeds and no definition runs on from one file into the next: the output, the
variables and the mixins are the same. -/
theorem process_importStatement {environment : Environment}
    (quiet : environment.options.debugComments = false) {fuel : Nat}
    {files : List (ImportedFile environment)} (filled : files ≠ [])
    (few : files.length ≤ 200) {compilation : Compilation}
    (finished : ∀ outcome ∈
      (compilation.processAll environment
        (files.map (ImportedFile.call fuel))).1,
      outcome = .finished)
    (ended : compilation.EndsDefinitions environment
      (files.map (ImportedFile.call fuel)))
    (name : Option Text) :
    ∃ enough, ∀ limit, enough ≤ limit →
      let (outcome, after) := compilation.process environment limit
        (importStatement (files.map ImportedFile.path)) name
      outcome = .finished ∧
        SameResults
          (compilation.processAll environment
            (files.map (ImportedFile.call fuel))).2
          after := by
  obtain ⟨log, announced⟩ := announce_quiet quiet compilation name
  have here := start_at (compilation.announce environment name)
    (importStatement (files.map ImportedFile.path)) name
  rw [strip_importStatement (ImportedFile.quotable_paths files)] at here
  obtain ⟨dependencies, log, cursor, base, stepped, exhausted, draws⟩ :=
    step_importStatement quiet filled (by unfold maxSources; omega) here
  -- From here on it does not matter how the statement was written.
  clear here
  generalize importStatement (files.map ImportedFile.path) = source at stepped ⊢
  have same : SameResults compilation
      { (compilation.announce environment name).start source name with
        dependencies, log, cursor }.toCompilation := by
    rw [announced]
    exact ⟨rfl, rfl, rfl⟩
  obtain ⟨enough, last, closed, results, ending⟩ :=
    run_stack quiet exhausted finished ended same rfl draws
  refine ⟨enough + 2, fun limit large => ?_⟩
  obtain ⟨more, rfl⟩ : ∃ more, limit = (enough + more + 1) + 1 :=
    ⟨limit - enough - 2, by omega⟩
  obtain ⟨note, processed⟩ :=
    process_eq environment (enough + more + 1 + 1) compilation source name
  have ran : ((compilation.announce environment name).start source name).run
      environment (enough + more + 1 + 1) = (.finished, last) := by
    rw [State.run, stepped]
    exact ending more
  simp only [ran] at processed
  rw [processed]
  refine ⟨rfl, results.sheet, ?_, results.mixins⟩
  rw [results.scopes, State.finish, closed]
  rfl

instance decidableEndsDefinitions (environment : Environment) :
    (calls : List Call) → (compilation : Compilation) →
      Decidable (compilation.EndsDefinitions environment calls)
  | [], _ => .isTrue trivial
  | [_], _ => .isTrue trivial
  | _ :: next :: calls, _ =>
      have := decidableEndsDefinitions environment (next :: calls)
      inferInstanceAs (Decidable (_ ∧ _))

namespace ImportSample

/-- Finds the two files `a` and `b`. -/
def holding (first second : String) : Environment where
  loader :=
    .ofTexts
      [("a.scss".toList, first.toList), ("_b.scss".toList, second.toList)]

/-- A variable and a rule. -/
def first : String :=
  "$x: 1; .a \x7b w: $x; \x7d // @import 'c';"

/-- A mixin, and a definition that runs up to the end. -/
def second : String :=
  "@mixin m($p) \x7b v: $p; \x7d $y: $x 2"

def files : List (ImportedFile (holding first second)) :=
  [⟨"a".toList, first.toList, by decide, by decide, by decide⟩,
    ⟨"b".toList, second.toList, by decide, by decide, by decide⟩]

end ImportSample

open ImportSample in
/-- Two files are imported in order. -/
theorem process_importStatement_two :
    let environment := holding first second
    let calls := files.map (ImportedFile.call 9)
    (∀ outcome ∈ (({} : Compilation).processAll environment calls).1,
      outcome = .finished) ∧
      Compilation.EndsDefinitions environment calls {} ∧
      ∃ enough, ∀ limit, enough ≤ limit →
        let (outcome, after) := Compilation.process environment limit {}
          (importStatement (files.map ImportedFile.path)) none
        outcome = .finished ∧
          SameResults (({} : Compilation).processAll environment calls).2
            after := by
  intro environment calls
  have finished :
      ∀ outcome ∈ (({} : Compilation).processAll environment calls).1,
      outcome = .finished := by decide +kernel
  have ended : Compilation.EndsDefinitions environment calls {} := by
    decide +kernel
  exact ⟨finished, ended,
    process_importStatement rfl (List.cons_ne_nil _ _) (by decide)
      finished ended none⟩

open ImportSample in
/-- A definition at the end of a file runs on into the next file: each file can
be compiled, but not their import. -/
theorem definition_runs_on :
    let environment := holding "$x: 1" "$y: 2;"
    (∀ outcome ∈ (({} : Compilation).processAll environment
        [⟨"$x: 1".toList, some "a".toList, 9⟩,
          ⟨"$y: 2;".toList, some "b".toList, 9⟩]).1,
        outcome = .finished) ∧
      (Compilation.process environment 9 {}
        (importStatement ["a".toList, "b".toList])
          none).1.message? =
        some "undefined variable: '$y'".toList := by
  decide +kernel

end Stylesheet
