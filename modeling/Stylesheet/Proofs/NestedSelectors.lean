import Mathlib.Algebra.BigOperators.Group.List.Basic
import Mathlib.Data.List.Basic
import Stylesheet.Selector

/-!
# Selectors of nested blocks

The selectors of a block in full come from the lists of the blocks around it,
one after the other from the outside in.  A path picks one selector from each
list, and the selectors in full are those of all paths, the paths with the first
selector of the outermost list first.  No `&` is left in them.  Combining fails
exactly if a selector has more than one `&`.
-/

namespace Stylesheet

section Traversal

variable {ε α β : Type} {action : α → Except ε β} {items : List α}

private theorem mapM_of_ok {value : α → β}
    (each : ∀ item ∈ items, action item = .ok (value item)) :
    items.mapM action = .ok (items.map value) := by
  induction items with
  | nil => rfl
  | cons item items ih =>
      rw [List.mapM_cons, each item (by simp),
        ih fun later member => each later (by simp [member])]
      rfl

/-- A traversal with a failing item fails as the first of them does. -/
theorem mapM_of_error {item : α} {error : ε} (member : item ∈ items)
    (fails : action item = .error error) :
    ∃ first ∈ items, ∃ fault, action first = .error fault ∧
      items.mapM action = .error fault := by
  induction items with
  | nil => simp at member
  | cons head items ih =>
      rw [List.mapM_cons]
      cases result : action head with
      | error fault => exact ⟨head, by simp, fault, result, rfl⟩
      | ok value =>
          have later : item ∈ items := by
            rcases List.mem_cons.mp member with rfl | later
            · simp [result] at fails
            · exact later
          obtain ⟨first, among, fault, failed, whole⟩ := ih later
          exact ⟨first, by simp [among], fault, failed, by rw [whole]; rfl⟩

end Traversal

namespace Selector

/-- A selector inside `parent` in full: the parent stands for `&`, or in
front. -/
def within (parent child : Text) : Text :=
  if '&' ∈ child then child.flatMap fun c => if c = '&' then parent else [c]
  else parent ++ ' ' :: child

section

variable {parent child : Text}

private theorem flatMap_parent_of_not_mem (absent : '&' ∉ child) :
    (child.flatMap fun c => if c = '&' then parent else [c]) = child := by
  induction child with
  | nil => rfl
  | cons c rest ih =>
      obtain ⟨other, later⟩ := not_or.mp (mt List.mem_cons.mpr absent)
      rw [List.flatMap_cons, if_neg (Ne.symm other), ih later]
      rfl

private theorem replaceParent_of_single (single : child.count '&' < 2) :
    replaceParent parent child = child.flatMap fun c => if c = '&' then parent
      else [c] := by
  induction child with
  | nil => rfl
  | cons c rest ih =>
      by_cases found : c = '&'
      · subst found
        have absent : '&' ∉ rest := by
          rw [List.count_cons_self] at single
          exact List.count_eq_zero.mp (by omega)
        rw [List.flatMap_cons, flatMap_parent_of_not_mem absent]
        rfl
      · rw [List.count_cons_of_ne found] at single
        simp [replaceParent, found, ih single]

theorem count_replaceParent (present : '&' ∈ child) :
    (replaceParent parent child).count '&' + 1 =
      parent.count '&' + child.count '&' := by
  induction child with
  | nil => simp at present
  | cons c rest ih =>
      by_cases found : c = '&'
      · simp [replaceParent, found, Nat.add_assoc]
      · have later : '&' ∈ rest := by
          simpa [Ne.symm found] using present
        simp [replaceParent, found, ih later]

theorem not_mem_within (plain : '&' ∉ parent) : '&' ∉ within parent child := by
  unfold within
  split
  · rw [List.mem_flatMap]
    rintro ⟨c, -, inside⟩
    split at inside
    · exact plain inside
    · rename_i other
      exact other (List.mem_singleton.mp inside).symm
  · rename_i absent
    simp [plain, absent]

private theorem nest_of_single (plain : '&' ∉ parent)
    (single : child.count '&' < 2) :
    nest parent child = .ok (within parent child) := by
  unfold nest within
  by_cases present : '&' ∈ child
  · have gone : '&' ∉ replaceParent parent child := by
      have count := @count_replaceParent parent child present
      rw [List.count_eq_zero.mpr plain] at count
      exact List.count_eq_zero.mp (by omega)
    simp only [List.contains_iff_mem, present, gone, if_true, if_false]
    rw [replaceParent_of_single single]
  · simp [present]

private theorem nest_of_double (double : 2 ≤ child.count '&') :
    nest parent child =
      .error (.ampersandLeft (replaceParent parent child)) := by
  have present : '&' ∈ child := List.count_pos_iff.mp (by omega)
  have left : '&' ∈ replaceParent parent child := by
    have count := @count_replaceParent parent child present
    exact List.count_pos_iff.mp (by omega)
  simp [nest, present, left]

private theorem nest_error {error : Error}
    (failed : nest parent child = .error error) :
    ∃ selector, error = .ampersandLeft selector := by
  unfold nest at failed
  split at failed
  · dsimp only at failed
    split at failed
    · exact ⟨_, (Except.error.inj failed).symm⟩
    · simp at failed
  · simp at failed

end

section

variable {parents children : List Text}

theorem combine_of_single (plain : ∀ parent ∈ parents, '&' ∉ parent)
    (single : ∀ child ∈ children, child.count '&' < 2) :
    combine (some parents) children =
      .ok (parents.flatMap fun parent => children.map (within parent)) := by
  have each : ∀ pair ∈ parents.flatMap fun parent => children.map fun child =>
      (parent, child), nest pair.1 pair.2 = .ok (within pair.1 pair.2) := by
    intro pair member
    obtain ⟨parent, above, child, below, rfl⟩ : ∃ parent ∈ parents,
        ∃ child ∈ children, (parent, child) = pair := by
      simpa using member
    exact nest_of_single (plain parent above) (single child below)
  have all := mapM_of_ok each
  simpa [combine, List.map_flatMap, Function.comp_def] using all

/-- A selector with more than one `&` fails under every parent. -/
theorem combine_of_double (nonempty : parents ≠ []) {child : Text}
    (member : child ∈ children) (double : 2 ≤ child.count '&') :
    ∃ selector,
      combine (some parents) children = .error (.ampersandLeft selector) := by
  obtain ⟨parent, others, rfl⟩ := List.exists_cons_of_ne_nil nonempty
  have paired : (parent, child) ∈
      (parent :: others).flatMap fun parent => children.map fun child =>
        (parent, child) := by
    simp [member]
  obtain ⟨first, -, error, failed, whole⟩ := @mapM_of_error _ _ _
    (fun pair : Text × Text => nest pair.1 pair.2) _ _ _ paired
      (nest_of_double double)
  obtain ⟨selector, rfl⟩ := nest_error failed
  exact ⟨selector, whole⟩

end

/-- The selectors in full of the innermost of nested blocks: the lists are
combined from the outermost one on. -/
def combineAll (outer : List Text) (inner : List (List Text)) :
    Except Error (List Text) := do
  let parents ← combine none outer
  inner.foldlM (fun parents children => combine (some parents) children) parents

/-- The ways to pick one selector from each list.  Those with the first selector
of the first list come first. -/
def paths : List (List Text) → List (List Text)
  | [] => [[]]
  | list :: lists =>
      list.flatMap fun selector => (paths lists).map (selector :: ·)

/-- The selector in full at the end of a path that starts inside `parent`. -/
def inFull (parent : Text) (path : List Text) : Text :=
  path.foldl within parent

private theorem inFull_cons (parent child : Text) (path : List Text) :
    inFull parent (child :: path) = inFull (within parent child) path :=
  rfl

private theorem length_paths (lists : List (List Text)) :
    (paths lists).length = (lists.map List.length).prod := by
  induction lists with
  | nil => rfl
  | cons list lists ih =>
      simp [paths, List.length_flatMap, ih]

private theorem not_mem_inFull {parent : Text} (plain : '&' ∉ parent)
    (path : List Text) :
    '&' ∉ inFull parent path := by
  induction path generalizing parent with
  | nil => exact plain
  | cons child path ih => exact ih (not_mem_within plain)

section

variable {parents : List Text} {lists : List (List Text)}

/-- The selectors one level down start the paths that are left. -/
theorem flatMap_paths_cons (children : List Text) :
    (parents.flatMap
      fun parent => (paths (children :: lists)).map (inFull parent)) =
      (parents.flatMap fun parent => children.map (within parent)).flatMap
        fun parent => (paths lists).map (inFull parent) := by
  simp [paths, List.flatMap_assoc, List.map_flatMap, List.flatMap_map,
    Function.comp_def, inFull_cons]

theorem not_mem_level {children : List Text}
    (plain : ∀ parent ∈ parents, '&' ∉ parent) :
    ∀ selector ∈ parents.flatMap fun parent => children.map (within parent),
      '&' ∉ selector := by
  intro selector member
  obtain ⟨parent, above, child, -, rfl⟩ : ∃ parent ∈ parents,
      ∃ child ∈ children, within parent child = selector := by
    simpa using member
  exact not_mem_within (plain parent above)

private theorem foldlM_of_single (plain : ∀ parent ∈ parents, '&' ∉ parent)
    (single : ∀ children ∈ lists, ∀ child ∈ children, child.count '&' < 2) :
    lists.foldlM (fun parents children => combine (some parents) children)
      parents =
      .ok
        (parents.flatMap fun parent => (paths lists).map (inFull parent)) := by
  induction lists generalizing parents with
  | nil => simp [paths, inFull, pure, Except.pure]
  | cons children lists ih =>
      rw [List.foldlM_cons, combine_of_single plain (single children (by simp)),
        flatMap_paths_cons]
      exact ih (not_mem_level plain) fun later member =>
        single later (by simp [member])

private theorem foldlM_of_double (plain : ∀ parent ∈ parents, '&' ∉ parent)
    (nonempty : parents ≠ []) (present : ∀ children ∈ lists, children ≠ [])
    (double : ∃ children ∈ lists, ∃ child ∈ children, 2 ≤ child.count '&') :
    ∃ selector,
      lists.foldlM (fun parents children => combine (some parents) children)
        parents =
      .error (.ampersandLeft selector) := by
  induction lists generalizing parents with
  | nil => simp at double
  | cons children lists ih =>
      rw [List.foldlM_cons]
      by_cases here : ∃ child ∈ children, 2 ≤ child.count '&'
      · obtain ⟨child, member, twice⟩ := here
        obtain ⟨selector, failed⟩ := combine_of_double nonempty member twice
        exact ⟨selector, by rw [failed]; rfl⟩
      · have single : ∀ child ∈ children, child.count '&' < 2 := by
          simpa using here
        have later : ∃ children ∈ lists, ∃ child ∈ children,
            2 ≤ child.count '&' := by
          simpa [here] using double
        have more :
            (parents.flatMap fun parent => children.map (within parent)) ≠
              [] := by
          obtain ⟨parent, others, rfl⟩ := List.exists_cons_of_ne_nil nonempty
          simp [present children (by simp)]
        rw [combine_of_single plain single]
        exact ih (not_mem_level plain) more
          (fun list member => present list (by simp [member])) later

end

private theorem parseList_ne_nil {text : Text} {list : List Text}
    (parsed : parseList text = .ok list) :
    list ≠ [] := by
  unfold parseList at parsed
  dsimp only at parsed
  split at parsed
  · simp at parsed
  · rename_i some
    rw [← Except.ok.inj parsed]
    simpa using some

/-- Lists that have been read, with no `&` in the outermost one, fail to combine
exactly if there is a selector with more than one `&` below it.  Otherwise there
is one selector in full for every path, in their order, and none of them has an
`&`. -/
theorem combineAll_full_product {outer : List Text} {inner : List (List Text)}
    (parsed : ∀ list ∈ outer :: inner, ∃ text, parseList text = .ok list)
    (plain : ∀ selector ∈ outer, '&' ∉ selector) :
    ((∃ error, combineAll outer inner = .error error) ↔
      ∃ children ∈ inner, ∃ child ∈ children, 2 ≤ child.count '&') ∧
    (∀ error, combineAll outer inner = .error error →
      ∃ selector, error = .ampersandLeft selector) ∧
    (∀ full, combineAll outer inner = .ok full →
      full = (outer.flatMap fun parent => (paths inner).map (inFull parent)) ∧
      full.length = outer.length * (inner.map List.length).prod ∧
      ∀ selector ∈ full, '&' ∉ selector) := by
  have present : ∀ list ∈ outer :: inner, list ≠ [] := by
    intro list member
    obtain ⟨text, parsed⟩ := parsed list member
    exact parseList_ne_nil parsed
  have start : combineAll outer inner =
      inner.foldlM (fun parents children => combine (some parents) children)
        outer := rfl
  rw [start]
  by_cases double : ∃ children ∈ inner, ∃ child ∈ children, 2 ≤ child.count '&'
  · obtain ⟨selector, failed⟩ :=
      foldlM_of_double plain (present outer (by simp))
      (fun list member => present list (by simp [member])) double
    rw [failed]
    refine ⟨⟨fun _ => double, fun _ => ⟨_, rfl⟩⟩,
      fun error same => ⟨selector, ?_⟩, ?_⟩
    · exact (Except.error.inj same).symm
    · simp
  · have single : ∀ children ∈ inner, ∀ child ∈ children,
        child.count '&' < 2 := by
      simpa using double
    rw [foldlM_of_single plain single]
    refine ⟨⟨?_, fun twice => absurd twice double⟩, ?_, ?_⟩
    · simp
    · simp
    · intro full same
      obtain rfl := (Except.ok.inj same).symm
      refine ⟨rfl, by simp [List.length_flatMap, length_paths], ?_⟩
      intro selector member
      obtain ⟨parent, above, path, -, rfl⟩ : ∃ parent ∈ outer,
          ∃ path ∈ paths inner, inFull parent path = selector := by
        simpa using member
      exact not_mem_inFull (plain parent above) path

/-- `d &` inside `&:hover, c` inside `.a, .b`. -/
theorem combineAll_full_product_three :
    let outer := [".a".toList, ".b".toList]
    let inner := [["&:hover".toList, "c".toList], ["d &".toList]]
    let full :=
      ["d .a:hover".toList, "d .a c".toList, "d .b:hover".toList,
        "d .b c".toList]
    (∀ list ∈ outer :: inner, ∃ text, parseList text = .ok list) ∧
    (∀ selector ∈ outer, '&' ∉ selector) ∧
    combineAll outer inner = .ok full ∧
    full = (outer.flatMap fun parent => (paths inner).map (inFull parent)) ∧
    full.length = outer.length * (inner.map List.length).prod := by
  intro outer inner full
  have parsed : ∀ list ∈ outer :: inner, ∃ text, parseList text = .ok list := by
    intro list member
    rcases List.mem_cons.mp member with rfl | member
    · exact ⟨".a, .b".toList, by rfl⟩
    rcases List.mem_cons.mp member with rfl | member
    · exact ⟨"&:hover,c".toList, by rfl⟩
    rcases List.mem_cons.mp member with rfl | member
    · exact ⟨"d  &".toList, by rfl⟩
    · simp at member
  have plain : ∀ selector ∈ outer, '&' ∉ selector := by decide
  have combined : combineAll outer inner = .ok full := by rfl
  obtain ⟨product, count, -⟩ :=
    (combineAll_full_product parsed plain).2.2 full combined
  exact ⟨parsed, plain, combined, product, count⟩

end Selector

end Stylesheet
