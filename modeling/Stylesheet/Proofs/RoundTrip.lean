import Mathlib.Data.List.Chain
import Stylesheet.Proofs.SheetGroups
import Stylesheet.Proofs.TreeCorrectness

/-!
# Rendered sheets

A rendered sheet is a stylesheet, and compiling it gives the same sheet again.
Each rule is read as a block of declarations outside of all others, so every
property comes back under its selectors, and rules stay apart as long as
neighbours differ in their selectors.
-/

namespace Stylesheet

open Stylesheet.Tree

/-- The characters of selectors. -/
def isSelectorChar (c : Char) : Bool :=
  isLetter c || ['.', '#', '_', '-', '>', '+', '~', '*', ':'].contains c

/-- The characters of values. -/
def isPlainValueChar (c : Char) : Bool :=
  isLetter c || ['#', '%', '.', '-', '_', ',', '+', '!'].contains c

/-- A selector that stands for itself: words with single spaces, no colon at the
end, and no mark of debug rules. -/
structure Selector.Printable (options : Options) (selector : Text) : Prop where
  tidy : Tidy isSelectorChar selector
  noColon : selector.getLast? ≠ some ':'
  unmarked : options.debugSelector ≠ [] → ¬ options.debugSelector <:+: selector

structure Property.Printable (property : Property) : Prop where
  nonempty : property.name ≠ []
  name : ∀ c ∈ property.name, isNameChar c = true
  value : Tidy isPlainValueChar property.value

def Definition.Printable (options : Options) : Definition → Prop
  | .comment _ => False
  | .rule selectors properties =>
      selectors ≠ [] ∧ properties ≠ [] ∧
        (∀ selector ∈ selectors, Selector.Printable options selector) ∧
        ∀ property ∈ properties, property.Printable

/-- Only rules, and no two in a row for the same selectors. -/
structure Sheet.Printable (options : Options) (sheet : Sheet) : Prop where
  rules : ∀ definition ∈ sheet.toList, definition.Printable options
  apart : sheet.toList.IsChain Definition.Apart

theorem selectorChar_cases {c : Char} (allowed : isSelectorChar c = true) :
    isOrdinary c = true ∨ c = ':' := by
  simp only [isSelectorChar, Bool.or_eq_true, List.contains_eq_mem,
    decide_eq_true_eq] at allowed
  rcases allowed with letter | sign
  · exact .inl (ordinary_of_isLetter letter)
  · have all : ∀ sign ∈ ['.', '#', '_', '-', '>', '+', '~', '*', ':'],
        isOrdinary sign = true ∨ sign = ':' := by decide
    exact all c sign

private theorem plainValueChar_cases {c : Char}
    (allowed : isPlainValueChar c = true) :
    isOrdinary c = true ∨ c = ',' ∨ c = '!' := by
  simp only [isPlainValueChar, Bool.or_eq_true, List.contains_eq_mem,
    decide_eq_true_eq] at allowed
  rcases allowed with letter | sign
  · exact .inl (ordinary_of_isLetter letter)
  · have all : ∀ sign ∈ ['#', '%', '.', '-', '_', ',', '+', '!'],
        isOrdinary sign = true ∨ sign = ',' ∨ sign = '!' := by decide
    exact all c sign

/-- Neither blank nor the end of a statement, nor anything that starts a string,
a reference or a comment. -/
def isCalm (c : Char) : Bool :=
  !isBlank c && isSmooth c && c != '$' && c != '@' && c != '/'

theorem calm_of_ordinary {c : Char} (ordinary : isOrdinary c = true) :
    isCalm c = true := by
  have dollar := @ne_of_ordinary c '$' ordinary (by decide)
  have sign := @ne_of_ordinary c '@' ordinary (by decide)
  have slash := @ne_of_ordinary c '/' ordinary (by decide)
  simp [isCalm, visible_of_ordinary ordinary, smooth_of_ordinary ordinary,
    dollar, sign, slash]

theorem calm_of_selectorChar {c : Char} (allowed : isSelectorChar c = true) :
    isCalm c = true := by
  rcases selectorChar_cases allowed with ordinary | rfl
  · exact calm_of_ordinary ordinary
  · decide

private theorem listed_of_selectorChar {c : Char}
    (allowed : isSelectorChar c = true) :
    isListed c = true := by
  rcases selectorChar_cases allowed with ordinary | rfl
  · exact listed_of_ordinary ordinary
  · decide

theorem calm_of_plainValueChar {c : Char}
    (allowed : isPlainValueChar c = true) :
    isCalm c = true := by
  rcases plainValueChar_cases allowed with ordinary | rfl | rfl
  · exact calm_of_ordinary ordinary
  · decide
  · decide

theorem visible_of_calm {c : Char} (calm : isCalm c = true) :
    isBlank c = false := by
  simp only [isCalm, Bool.and_eq_true, Bool.not_eq_true'] at calm
  exact calm.1.1.1.1

theorem smooth_of_calm {c : Char} (calm : isCalm c = true) :
    isSmooth c = true := by
  simp only [isCalm, Bool.and_eq_true] at calm
  exact calm.1.1.1.2

theorem ne_of_calm {c mark : Char} (calm : isCalm c = true)
    (wild : isCalm mark = false) :
    c ≠ mark := by
  rintro rfl
  rw [calm] at wild
  contradiction

theorem unquoted_of_calm {c : Char} (calm : isCalm c = true) :
    isQuote c = false := by
  have double := @ne_of_calm c '"' calm (by decide)
  have single := @ne_of_calm c '\'' calm (by decide)
  simp [isQuote, double, single]

theorem Tidy.calm {kind : Char → Bool}
    (calm : ∀ c, kind c = true → isCalm c = true) {text : Text}
    (tidy : Tidy kind text) : Tidy isCalm text := by
  induction tidy with
  | char head => exact .char (calm _ head)
  | cons head _ ih => exact .cons (calm _ head) ih
  | gap head _ ih => exact .gap (calm _ head) ih

theorem Tidy.smooth_of_calm {text : Text} (tidy : Tidy isCalm text) :
    Smooth text := by
  intro c member
  rcases tidy.mem c member with calm | rfl
  · exact Stylesheet.smooth_of_calm calm
  · decide

theorem Tidy.uncommented {text : Text} (tidy : Tidy isCalm text) :
    ∀ c ∈ text, isQuote c = false ∧ c ≠ '/' := by
  intro c member
  rcases tidy.mem c member with calm | rfl
  · exact ⟨unquoted_of_calm calm, ne_of_calm calm (by decide)⟩
  · decide

theorem Tree.Spaces.listed {gap : Text} (space : Spaces gap) :
    ∀ c ∈ gap, isListed c = true := by
  intro c member
  have standing := space c member
  simp only [isSpace, Bool.or_eq_true, beq_iff_eq] at standing
  rcases standing with ((((rfl | rfl) | rfl) | rfl) | rfl) | rfl <;> decide

namespace Options

private theorem infix_of_markedAfter {marker text : Text} {pending : Nat}
    (marked : markedAfter marker pending text = true) : marker <:+: text := by
  fun_induction markedAfter marker pending text with
  | case1 => simp at marked
  | case2 pending c rest ih =>
      exact (ih marked).trans (List.suffix_cons c rest).isInfix
  | case3 c rest found ih =>
      exact (List.isPrefixOf_iff_prefix.mp found).isInfix
  | case4 c rest absent ih =>
      exact (ih marked).trans (List.suffix_cons c rest).isInfix

variable {options : Options}

private theorem filterSelectors_printable {selectors : List Text}
    (printable : ∀ selector ∈ selectors, Selector.Printable options selector) :
    options.filterSelectors selectors = selectors := by
  unfold filterSelectors
  have kept : ∀ selector ∈ selectors,
      options.filterSelector selector = some selector := by
    intro selector member
    have clean : options.isDebug selector = false := by
      rw [isDebug, Bool.and_eq_false_imp]
      intro marker
      rw [Bool.not_eq_true', List.isEmpty_eq_false_iff] at marker
      rw [Bool.eq_false_iff]
      exact fun marked => (printable selector member).unmarked marker
        (infix_of_markedAfter marked)
    simp [filterSelector, clean]
  induction selectors with
  | nil => rfl
  | cons first others ih =>
      rw [List.filterMap_cons_some (kept first (by simp)),
        ih (fun selector member => printable selector (by simp [member]))
          fun selector member => kept selector (by simp [member])]

end Options

/-- The selectors of a rule, one a line. -/
def heading (selectors : List Text) : Text :=
  ",\n".toList.intercalate selectors

theorem heading_one (selector : Text) : heading [selector] = selector := by
  simp [heading, List.intercalate]

theorem heading_more (first second : Text) (others : List Text) :
    heading (first :: second :: others) =
      first ++ ',' :: (['\n'] ++ heading (second :: others)) := by
  rw [heading, List.intercalate_cons_cons]
  simp [heading]

section Heading

variable {selectors : List Text}

theorem smooth_heading (calm : ∀ selector ∈ selectors, Tidy isCalm selector) :
    Smooth (heading selectors) := by
  induction selectors with
  | nil => simp [heading, List.intercalate, Smooth]
  | cons first others ih =>
      have head := (calm first (by simp)).smooth_of_calm
      cases others with
      | nil => rwa [heading_one]
      | cons second others =>
          rw [heading_more]
          exact head.append (.cons (by decide) (.cons (by decide)
            (ih fun selector member => calm selector (by simp [member]))))

theorem uncommented_heading
    (calm : ∀ selector ∈ selectors, Tidy isCalm selector) :
    ∀ c ∈ heading selectors, isQuote c = false ∧ c ≠ '/' := by
  induction selectors with
  | nil => simp [heading, List.intercalate]
  | cons first others ih =>
      have head := (calm first (by simp)).uncommented
      cases others with
      | nil => rwa [heading_one]
      | cons second others =>
          rw [heading_more]
          simp only [List.forall_mem_append, List.forall_mem_cons,
            List.singleton_append]
          exact ⟨head, by decide, by decide,
            ih fun selector member => calm selector (by simp [member])⟩

theorem head_heading {first : Text} {others : List Text}
    (calm : Tidy isCalm first) :
    ∃ c rest, heading (first :: others) = c :: rest ∧ isCalm c = true := by
  obtain ⟨c, rest, rfl, head⟩ := calm.head
  cases others with
  | nil => exact ⟨c, rest, heading_one _, head⟩
  | cons second others => exact ⟨c, _, heading_more _ _ _, head⟩

private theorem last_heading (present : selectors ≠ [])
    (calm : ∀ selector ∈ selectors, Tidy isCalm selector)
    (noColon : ∀ selector ∈ selectors, selector.getLast? ≠ some ':') :
    ∃ c, (heading selectors).getLast? = some c ∧ isCalm c = true ∧ c ≠ ':' := by
  induction selectors with
  | nil => contradiction
  | cons first others ih =>
      cases others with
      | nil =>
          obtain ⟨lead, c, ends, last⟩ := (calm first (by simp)).last
          have other := noColon first (by simp)
          rw [heading_one]
          rw [ends, List.getLast?_concat] at other ⊢
          exact ⟨c, rfl, last, by simpa using other⟩
      | cons second others =>
          obtain ⟨c, ends, last⟩ := ih (by simp)
            (fun selector member => calm selector (by simp [member]))
            fun selector member => noColon selector (by simp [member])
          refine ⟨c, ?_, last⟩
          obtain ⟨lead, same⟩ := List.getLast?_eq_some_iff.mp ends
          rw [heading_more, same, List.getLast?_eq_some_iff]
          exact ⟨first ++ ',' :: ['\n'] ++ lead, by simp⟩

/-- The heading is split into its selectors again. -/
theorem split_heading (present : selectors ≠ [])
    (calm : ∀ selector ∈ selectors, Tidy isCalm selector)
    (listed : ∀ selector ∈ selectors, ∀ c ∈ selector, isListed c = true)
    {gap : Text} (space : Spaces gap) :
    (Text.splitCommas (gap ++ heading selectors)).map Text.collapse =
      selectors := by
  induction selectors generalizing gap with
  | nil => contradiction
  | cons first others ih =>
      have plain : ∀ c ∈ gap ++ first, isListed c = true := by
        intro c member
        rcases List.mem_append.mp member with member | member
        · exact space.listed c member
        · exact listed first (by simp) c member
      have collapsed := @(calm first (by simp)).collapse_around _ _ gap []
        (fun _ => visible_of_calm) space.blank (by simp)
      rw [List.append_nil] at collapsed
      cases others with
      | nil =>
          rw [heading_one, Text.splitCommas_last plain,
            List.map_singleton, collapsed]
      | cons second others =>
          rw [heading_more, ← List.append_assoc, Text.splitCommas_cons plain,
            List.map_cons, collapsed, ih (by simp)
              (fun selector member => calm selector (by simp [member]))
              (fun selector member => listed selector (by simp [member]))
              (by simp [Spaces, isSpace])]

private theorem parseList_heading (present : selectors ≠ [])
    (calm : ∀ selector ∈ selectors, Tidy isCalm selector)
    (listed : ∀ selector ∈ selectors, ∀ c ∈ selector, isListed c = true) :
    Selector.parseList (heading selectors) = .ok selectors := by
  have split := @split_heading _ present calm listed [] (by simp [Spaces])
  rw [List.nil_append] at split
  have kept : selectors.filter (!·.isEmpty) = selectors := by
    rw [List.filter_eq_self]
    intro selector member
    have nonempty := (calm selector member).length_pos
    rw [List.length_pos_iff] at nonempty
    simpa using nonempty
  rw [Selector.parseList, split, kept]
  simp [present]

end Heading

namespace Compile

variable {environment : Environment} {state : State} {start : Sheet}
  {evaluation : Evaluation}

private theorem step_calm {lead text : Text} {c : Char}
    (here : state.At (lead ++ text)) (space : Spaces lead)
    (starts : text.head? = some c) (calm : isCalm c = true) :
    step environment state =
      (do statement environment; return true) (state.pass lead.length) := by
  obtain ⟨others, rfl⟩ := List.head?_eq_some_iff.mp starts
  have visible : isSpace c = false := by
    rw [Bool.eq_false_iff]
    intro space
    have blank := isBlank_of_isSpace space
    rw [visible_of_calm calm] at blank
    contradiction
  have wild : ∀ mark ∈ ['}', ';', '$', '@'], isCalm mark = false := by decide
  rw [step_skip here space (by simpa using visible)]
  exact step_statement here.pass visible fun member =>
    ne_of_calm calm (wild c member) rfl

/-- Outside of all blocks, a heading opens a block for its selectors. -/
theorem blockOf_heading {selectors : List Text} (present : selectors ≠ [])
    (calm : ∀ selector ∈ selectors, Tidy isCalm selector)
    (noColon : ∀ selector ∈ selectors, selector.getLast? ≠ some ':')
    (listed : ∀ selector ∈ selectors, ∀ c ∈ selector, isListed c = true)
    (outside : state.blocks = []) :
    blockOf environment (Text.trim (heading selectors ++ [' '])) state =
      .ok { selectors } state := by
  obtain ⟨first, others, rfl⟩ := List.exists_cons_of_ne_nil present
  obtain ⟨c, rest, starts, visibleFirst⟩ :=
    @head_heading first others (calm first (by simp))
  obtain ⟨d, ends, visibleLast, other⟩ := last_heading present calm noColon
  have trimmed : Text.trim (heading (first :: others) ++ [' ']) =
      heading (first :: others) := by
    have around := @Text.trim_around [] (heading (first :: others)) [' '] c d
      (by simp) (by decide)
      (by rw [starts]; rfl) (visible_of_calm visibleFirst) ends
        (visible_of_calm visibleLast)
    rwa [List.nil_append] at around
  have noSuffix : [':'].isSuffixOf? (heading (first :: others)) = none := by
    cases found : [':'].isSuffixOf? (heading (first :: others)) with
    | none => rfl
    | some front =>
        rw [List.isSuffixOf?_eq_some_iff_append_eq] at found
        rw [← found, List.getLast?_concat, Option.some.injEq] at ends
        exact absurd ends.symm other
  have noHole : ∀ c ∈ heading (first :: others), c ≠ '{' := fun c member =>
    ne_of_smooth (smooth_heading calm c member) (by decide)
  simp only [blockOf, bind_apply, get_apply, trimmed, noSuffix, outside,
    List.head?_nil, Option.map_none, interpolate_plain environment noHole,
    parseList_heading present calm listed, Selector.combine, check, pure_apply]

private theorem resolveValue_printable {value : Text}
    (tidy : Tidy isCalm value) :
    resolveValue environment (' ' :: value) state = .ok value state := by
  have ne : ∀ {mark : Char}, isCalm mark = false → mark ≠ ' ' →
      ∀ c ∈ ' ' :: value, c ≠ mark := by
    intro mark wild other c member
    rcases List.mem_cons.mp member with rfl | member
    · exact other.symm
    · rcases tidy.mem c member with calm | rfl
      · exact ne_of_calm calm wild
      · exact other.symm
  have resolved :=
    @resolveValue_plain environment state _ _ _ (ne (by decide) (by decide))
    (ne (by decide) (by decide))
    (Variable.substitute_plain (ne (by decide) (by decide)) state.scopes)
  have normal := @tidy.normalize_eq _ _ [' '] []
    (fun c calm => ⟨visible_of_calm calm, unquoted_of_calm calm⟩)
      (by decide) (by simp)
  rw [List.append_nil] at normal
  rw [resolved]
  exact congrArg (EStateM.Result.ok · state) normal

theorem smooth_property {property : Property} (printable : property.Printable) :
    Smooth (property.name ++ ':' :: ' ' :: property.value) := by
  have name : Tidy isOrdinary property.name :=
    Name.tidy ⟨property.name, printable.nonempty, printable.name⟩
  have value := printable.value.calm fun _ => calm_of_plainValueChar
  exact name.smooth.append
    (.cons (by decide) (.cons (by decide) value.smooth_of_calm))

private theorem declaration_rendered {property : Property}
    (printable : property.Printable) {selectors : List Text}
    {outer : List Block} {rest : Text}
    (follows : Follows start state evaluation)
    (inside : state.blocks = { selectors } :: outer)
    (here : state.At
      ((property.name ++ ':' :: ' ' :: property.value) ++ ';' :: rest)) :
    Performs start state.blocks rest (declaration environment state)
      (.ok ⟨⟩ { evaluation with
        emitted := evaluation.emitted ++ [{ selectors, property }] }) := by
  have raw :=
    @reading_smooth _ [';', '}'] _ _ _ here
      (smooth_property printable) (by decide)
    (by decide) (by decide) (by simp)
  have atEnd := here.pass
  have tidy : Tidy isOrdinary property.name :=
    Name.tidy ⟨property.name, printable.nonempty, printable.name⟩
  have trimmed : Text.trim property.name = property.name :=
    tidy.trim_eq fun _ => visible_of_ordinary
  have noHole : ∀ c ∈ property.name, c ≠ '{' := fun c member =>
    ne_of_ordinary (ordinary_of_isNameChar (printable.name c member))
      (by decide)
  have nonempty : property.name.isEmpty = false := by
    simpa using printable.nonempty
  have filled : property.value.isEmpty = false := by
    rw [List.isEmpty_eq_false_iff, ← List.length_pos_iff]
    exact printable.value.length_pos
  have split :=
    splitDeclaration_printed ⟨property.name, printable.nonempty, printable.name⟩
    (' ' :: property.value)
  generalize List.length (_ ++ ':' :: _) = count at raw atEnd
  have reached : (state.pass count).blocks = { selectors } :: outer := inside
  have resolved := @resolveValue_printable environment (state.pass count) _
    (printable.value.calm fun _ => calm_of_plainValueChar)
  simp only [declaration, bind_apply, raw, get_apply]
  rw [reached]
  simp only [bind_apply, split, trimmed, nonempty, resolved, filled,
    interpolate_plain environment noHole, Bool.false_eq_true, if_false]
  exact addProperty_performs (follows.pass count) atEnd

end Compile

/-- The effect of declarations. -/
def publish (emitted : List Emission) : Evaluate Unit :=
  modify fun evaluation =>
    { evaluation with emitted := evaluation.emitted ++ emitted }

theorem publish_append (first second : List Emission) :
    (do publish first; publish second) = publish (first ++ second) := by
  funext evaluation
  simp [publish]

theorem Definition.render_printable {options : Options} {selectors : List Text}
    {properties : List Property}
    (printable : (rule selectors properties).Printable options) :
    (rule selectors properties).render options =
      heading selectors ++ " \x7b\n".toList ++
      properties.flatMap Property.render ++ "\x7d\n".toList := by
  obtain ⟨present, -, targets, -⟩ := printable
  rw [render, Options.filterSelectors_printable targets]
  split
  · contradiction
  · rfl

/-- The properties of a definition, each under its selectors. -/
def Definition.emissions : Definition → List Emission
  | .rule selectors properties =>
      properties.map fun property => { selectors, property }
  | .comment _ => []

namespace Agrees

variable {environment : Environment} {start : Sheet} {state : State}
  {evaluation : Evaluation}

/-- Rendered properties are declared one after the other. -/
theorem properties {properties : List Property}
    (printable : ∀ property ∈ properties, property.Printable)
    {selectors : List Text} {outer : List Block} {gap rest : Text}
    (space : Spaces gap) (inside : state.blocks = { selectors } :: outer)
    (here : state.At (gap ++ (properties.flatMap Property.render ++ rest)))
    (follows : Follows start state evaluation) :
    Agrees environment start ({ selectors } :: outer) rest state
      (publish (properties.map fun property => { selectors, property })
        evaluation) := by
  induction properties generalizing state evaluation gap with
  | nil =>
      refine ⟨state, gap, .refl, space, here, inside, ?_⟩
      simpa [publish] using follows
  | cons property properties ih =>
      have head := printable property (by simp)
      have standing :
          state.At
            ((gap ++ ['\t']) ++
              ((property.name ++ ':' :: ' ' :: property.value) ++
          ';' ::
            (['\n'] ++ (properties.flatMap Property.render ++ rest)))) := by
        simpa [Property.render] using here
      obtain ⟨c, others, starts, ordinary⟩ : ∃ c rest,
          property.name = c :: rest ∧
          isOrdinary c = true :=
        (Name.tidy ⟨property.name, head.nonempty, head.name⟩).head
      have taken := @Compile.step_printed environment state _ _ _ c standing
        (space.append (by simp [Spaces, isSpace])) (by simp [starts]) ordinary
      have performs :=
        @Compile.declaration_rendered environment _ _ _ _ head _ _ _
        (follows.pass _) inside standing.pass
      rw [← Compile.statement_semicolon standing.pass
        (Compile.smooth_property head)] at performs
      have split :
          publish ((property :: properties).map
            fun property => { selectors, property }) =
          (do publish [{ selectors, property }]
              publish
                (properties.map fun property => { selectors, property })) := by
        rw [publish_append]
        rfl
      rw [split]
      refine (Agrees.of_step taken performs).andThen ?_
      intro reached after gap space here same follows
      rw [← List.append_assoc] at here
      exact ih (fun property member => printable property (by simp [member]))
        (space.append (by simp [Spaces, isSpace]))
          (same.trans inside) here follows

private theorem absorb {blocks : List Block} {space rest : Text}
    {result : EStateM.Result Error Evaluation Unit} (spaces : Spaces space)
    (agrees : Agrees environment start blocks (space ++ rest) state result) :
    Agrees environment start blocks rest state result := by
  cases result with
  | ok value evaluation =>
      obtain ⟨next, gap, reached, gapSpaces, here, facts⟩ := agrees
      rw [← List.append_assoc] at here
      exact ⟨next, gap ++ space, reached, gapSpaces.append spaces, here, facts⟩
  | error error evaluation => exact agrees

/-- A rendered rule is a block of its declarations. -/
theorem rule {selectors : List Text} {properties : List Property}
    (printable : (Definition.rule selectors properties).Printable
      environment.options)
    {gap rest : Text} (space : Spaces gap) (outside : state.blocks = [])
    (here : state.At (gap ++ ((heading selectors ++ " \x7b\n".toList ++
      properties.flatMap Property.render ++ "\x7d\n".toList) ++ rest)))
    (follows : Follows start state evaluation) :
    Agrees environment start [] rest state
      (publish (properties.map fun property => { selectors, property })
        evaluation) := by
  obtain ⟨present, -, targets, declarations⟩ := printable
  have calm : ∀ selector ∈ selectors, Tidy isCalm selector :=
    fun selector member =>
    (targets selector member).tidy.calm fun _ => calm_of_selectorChar
  have listed : ∀ selector ∈ selectors, ∀ c ∈ selector, isListed c = true := by
    intro selector member c within
    rcases (targets selector member).tidy.mem c within with allowed | rfl
    · exact listed_of_selectorChar allowed
    · decide
  have standing : state.At (gap ++ ((heading selectors ++ [' ']) ++ '{' ::
      ((['\n'] ++ properties.flatMap Property.render) ++ '}' ::
        (['\n'] ++ rest)))) := by
    simpa using here
  have smooth : Smooth (heading selectors ++ [' ']) :=
    (smooth_heading calm).append (by simp [Smooth, isSmooth, isFlat, isQuote])
  have noHole :
      (Nesting.after {} (heading selectors ++ [' '])).afterHash = false :=
    afterHash_space (by simp [Spaces, isSpace]) (by simp)
  have taken : Compile.step environment state =
      (do Compile.statement environment; return true)
        (state.pass gap.length) := by
    obtain ⟨first, others, rfl⟩ := List.exists_cons_of_ne_nil present
    obtain ⟨c, tail, starts, head⟩ :=
      @head_heading first others (calm first (by simp))
    exact Compile.step_calm standing space (by rw [starts]; rfl) head
  have performs :=
    @Compile.blockStatement_opens environment _ start _ _ _ { selectors } smooth
    noHole (follows.pass gap.length) standing.pass fun count => by
      rw [State.pass_pass]
      exact Compile.blockOf_heading present calm (fun selector member =>
        (targets selector member).noColon) listed outside
  rw [← Compile.statement_opening standing.pass smooth noHole] at performs
  have entered := Agrees.of_step taken performs
  rw [State.pass_blocks, outside] at entered
  have whole :
      inScope (publish (properties.map fun property => { selectors, property }))
        evaluation =
      publish (properties.map fun property => { selectors, property })
        evaluation := rfl
  rw [← whole]
  refine absorb (by simp [Spaces, isSpace] : Spaces ['\n']) (entered.block ?_)
  intro reached after gap space here same follows
  have inner : reached.At ((gap ++ ['\n']) ++
      (properties.flatMap Property.render ++ '}' :: (['\n'] ++ rest))) := by
    simpa using here
  exact Agrees.properties declarations
    (space.append (by simp [Spaces, isSpace])) same inner follows

theorem rules {definitions : List Definition}
    (printable : ∀ definition ∈ definitions,
      definition.Printable environment.options)
    {gap rest : Text} (space : Spaces gap) (outside : state.blocks = [])
    (here :
      state.At
        (gap ++
          (definitions.flatMap
            (Definition.render environment.options) ++ rest)))
    (follows : Follows start state evaluation) :
    Agrees environment start [] rest state
      (publish (definitions.flatMap Definition.emissions) evaluation) := by
  induction definitions generalizing state evaluation gap with
  | nil =>
      refine ⟨state, gap, .refl, space, here, outside, ?_⟩
      simpa [publish] using follows
  | cons definition definitions ih =>
      have head := printable definition (by simp)
      cases definition with
      | comment text => exact head.elim
      | rule selectors properties =>
          rw [List.flatMap_cons, Definition.render_printable head,
            List.append_assoc] at here
          rw [List.flatMap_cons, ← publish_append]
          refine (Agrees.rule head space outside here follows).andThen ?_
          intro reached after gap space here same follows
          exact ih
            (fun definition member => printable definition (by simp [member]))
              space same
            here follows

end Agrees

private theorem gather_map {selectors : List Text} {properties : List Property}
    (present : properties ≠ []) (rest : List Emission) :
    gather
      (properties.map
        (fun property => { selectors, property : Emission }) ++ rest) =
      attach selectors properties (gather rest) := by
  induction properties with
  | nil => contradiction
  | cons property properties ih =>
      rw [List.map_cons, List.cons_append, gather]
      cases properties with
      | nil => rfl
      | cons second properties =>
          rw [ih (by simp), attach_attach]
          rfl

/-- The properties of a printable sheet are gathered into its rules again. -/
theorem gather_emissions {options : Options} {definitions : List Definition}
    (printable : ∀ definition ∈ definitions, definition.Printable options)
    (apart : definitions.IsChain Definition.Apart) :
    gather (definitions.flatMap Definition.emissions) = definitions := by
  induction definitions with
  | nil => rfl
  | cons definition definitions ih =>
      have head := printable definition (by simp)
      have tail :=
        ih (fun definition member => printable definition (by simp [member]))
          apart.tail
      cases definition with
      | comment text => exact head.elim
      | rule selectors properties =>
          rw [List.flatMap_cons, Definition.emissions,
            gather_map head.2.1, tail]
          cases definitions with
          | nil => rfl
          | cons next definitions =>
              cases next with
              | comment text => rfl
              | rule others declarations =>
                  have differ : selectors ≠ others := by
                    rw [List.isChain_cons_cons] at apart
                    exact apart.1
                  simp [attach, differ.symm]

theorem Property.uncommented {property : Property}
    (printable : property.Printable) :
    ∀ c ∈ property.render, isQuote c = false ∧ c ≠ '/' := by
  have name : ∀ c ∈ property.name, isQuote c = false ∧ c ≠ '/' :=
    fun c member =>
    have ordinary := ordinary_of_isNameChar (printable.name c member)
    ⟨unquoted_of_ordinary ordinary, ne_of_ordinary ordinary (by decide)⟩
  have value :=
    (printable.value.calm fun _ => calm_of_plainValueChar).uncommented
  simp only [render, List.forall_mem_append, List.forall_mem_cons,
    List.cons_append]
  exact ⟨by decide, ⟨⟨name, by decide⟩, value⟩, by decide⟩

theorem Definition.uncommented {options : Options} {definition : Definition}
    (printable : definition.Printable options) :
    ∀ c ∈ definition.render options, isQuote c = false ∧ c ≠ '/' := by
  cases definition with
  | comment text => exact printable.elim
  | rule selectors properties =>
      have head := uncommented_heading fun selector member =>
        (printable.2.2.1 selector member).tidy.calm fun _ =>
          calm_of_selectorChar
      rw [render_printable printable]
      simp only [List.forall_mem_append, List.mem_flatMap]
      refine ⟨⟨⟨head, by decide⟩, ?_⟩, by decide⟩
      rintro c ⟨property, member, within⟩
      exact Property.uncommented (printable.2.2.2 property member) c within

theorem sheet_announce {environment : Environment} {file : Option Text}
    (silent : file = none ∨ environment.options.debugComments = false) :
    (Compilation.announce environment {} file).sheet = {} := by
  unfold Compilation.announce
  rcases silent with rfl | silent
  · rfl
  · cases file with
    | none => rfl
    | some name => simp [silent, Compilation.record]

private theorem Sheet.ext_toList {first second : Sheet}
    (same : first.toList = second.toList) :
    first = second := by
  cases first
  cases second
  simpa [toList] using same

private theorem finished_of_verdict {outcome : Outcome}
    (verdict : verdict? outcome = some none) :
    outcome = .finished := by
  cases outcome with
  | finished => rfl
  | failed failure => simp [verdict?] at verdict
  | unfinished => simp [verdict?] at verdict

/-- Compiling a rendered sheet succeeds and gives the sheet again, so that
rendering is stable from then on.  The name of the file must not be noted in the
sheet. -/
theorem process_render (environment : Environment) (file : Option Text)
    (silent : file = none ∨ environment.options.debugComments = false)
    {sheet : Sheet} (printable : sheet.Printable environment.options) :
    ∃ enough, ∀ fuel, enough ≤ fuel →
      let processed :=
        Compilation.process environment fuel {}
          (sheet.render environment.options)
        file
      processed.1 = .finished ∧ processed.2.sheet = sheet ∧
        (processed.2.render environment.options).1 =
          sheet.render environment.options := by
  have fresh := sheet_announce silent
  obtain ⟨_, log, announced⟩ := Compilation.announce_eq environment {} file
  rw [announced] at fresh
  dsimp only at fresh
  subst fresh
  have plain : ∀ c ∈ sheet.render environment.options,
      isQuote c = false ∧ c ≠ '/' := by
    intro c member
    obtain ⟨definition, within, rendered⟩ := List.mem_flatMap.mp member
    exact Definition.uncommented (printable.rules definition within) c rendered
  have standing :=
    at_start (Compilation.announce environment {} file) file plain
  have follows : Follows {} ((Compilation.announce environment {} file).start
      (sheet.render environment.options) file) {} := by
    rw [announced]
    exact ⟨.cons (.nil _) .nil, by simp [Sound], rfl, rfl⟩
  have agrees := @Agrees.rules environment {} _ _ _ printable.rules [] []
    (by simp [Spaces]) rfl (by simpa [Sheet.render] using standing) follows
  obtain ⟨enough, last, final, ends⟩ := agrees.run
  refine ⟨enough, fun fuel sufficient => ?_⟩
  obtain ⟨verdict, stopped⟩ := ends fuel sufficient
  obtain ⟨log, processed⟩ := Compilation.process_eq environment fuel {}
    (sheet.render environment.options) file
  have same : last.sheet = sheet := by
    have gathered :=
      @toList_foldl {} (by simp) (sheet.toList.flatMap Definition.emissions)
    rw [gather_emissions printable.rules printable.apart] at gathered
    have emitted :
        last.sheet = (sheet.toList.flatMap Definition.emissions).foldl
        (fun sheet emission =>
          sheet.addProperty emission.selectors emission.property) {} :=
      final.sheet
    rw [← emitted] at gathered
    exact Sheet.ext_toList (by simpa [Sheet.toList] using gathered)
  dsimp only at processed ⊢
  rw [processed, stopped]
  refine ⟨?_, same, congrArg (Sheet.render · environment.options) same⟩
  exact finished_of_verdict verdict

/-- A rule for two selectors, one of them with a combinator, and a rule for all
elements. -/
def Sheet.sample : Sheet :=
  ⟨[.rule [['*']] [⟨['z'], ['#', 'f']⟩],
    .rule [[':', 'r'], ['a', ' ', '>', ' ', '.', 'b']]
      [⟨['x'], ['1', ',', ' ', '2']⟩, ⟨['y', '-'], ['!', 'i']⟩]]⟩

theorem Sheet.printable_sample : sample.Printable {} := by
  have all : Selector.Printable {} ['*'] :=
    ⟨.char (by decide), by simp, fun _ => by decide⟩
  have root : Selector.Printable {} [':', 'r'] :=
    ⟨.cons (by decide) (.char (by decide)), by simp, fun _ => by decide⟩
  have child : Selector.Printable {} ['a', ' ', '>', ' ', '.', 'b'] :=
    ⟨.gap (by decide)
      (.gap (by decide) (.cons (by decide) (.char (by decide)))), by simp,
      fun _ => by decide⟩
  have color : Property.Printable ⟨['z'], ['#', 'f']⟩ :=
    ⟨by simp, by simp [isNameChar], .cons (by decide) (.char (by decide))⟩
  have list : Property.Printable ⟨['x'], ['1', ',', ' ', '2']⟩ :=
    ⟨by simp, by simp [isNameChar],
      .cons (by decide) (.gap (by decide) (.char (by decide)))⟩
  have mark : Property.Printable ⟨['y', '-'], ['!', 'i']⟩ :=
    ⟨by simp, by simp [isNameChar], .cons (by decide) (.char (by decide))⟩
  constructor
  · rintro definition member
    simp only [sample, toList, List.reverse_cons, List.reverse_nil,
      List.nil_append, List.cons_append, List.mem_cons, List.not_mem_nil,
      or_false] at member
    rcases member with rfl | rfl
    · exact ⟨by simp, by simp, by simpa using ⟨root, child⟩,
        by simpa using ⟨list, mark⟩⟩
    · exact ⟨by simp, by simp, by simpa using all, by simpa using color⟩
  · simp [sample, toList, Definition.Apart]

theorem process_render_sample :
    Sheet.sample.Printable {} ∧
      Sheet.sample.render {} =
        ":r,\na > .b \x7b\n\tx: 1, 2;\n\ty-: !i;\n\x7d\n* \x7b\n\tz: #f;\n\x7d\n".toList ∧
      ∃ enough, ∀ fuel, enough ≤ fuel →
        (Compilation.process {} fuel {} (Sheet.sample.render {}) none).2.sheet =
          Sheet.sample := by
  refine ⟨Sheet.printable_sample, by decide, ?_⟩
  obtain ⟨enough, ends⟩ :=
    process_render {} none (.inl rfl) Sheet.printable_sample
  exact ⟨enough, fun fuel sufficient => (ends fuel sufficient).2.1⟩

end Stylesheet
