import Stylesheet.Proofs.Bracing
import Stylesheet.Proofs.Effect

/-!
# Plain text

Text without quotes and brackets goes through every stage of the compiler as it
is: it has no comments, no holes and no calls, and a reader stops at the first
character it looks for.  A text is `Tidy` when it consists of words with single
spaces between them; collapsing blanks leaves such a text alone.
-/

namespace Stylesheet

theorem takeWhile_append {kind : Char → Bool} {text rest : Text}
    (matching : ∀ c ∈ text, kind c = true)
    (stops : ∀ c, rest.head? = some c → kind c = false) :
    (text ++ rest).takeWhile kind = text := by
  rw [List.takeWhile_append_of_pos matching]
  cases rest with
  | nil => simp
  | cons c rest =>
      rw [List.takeWhile_cons_of_neg (by simp [stops c rfl]), List.append_nil]

theorem not_name_of_isSpace {c : Char} (space : isSpace c = true) :
    isNameChar c = false := by
  simp only [isSpace, Bool.or_eq_true, beq_iff_eq] at space
  rcases space with ((((rfl | rfl) | rfl) | rfl) | rfl) | rfl <;> decide

theorem visible_dropWhile {kind : Char → Bool} (text : Text) :
    ∀ c, (text.dropWhile kind).head? = some c → kind c = false := by
  intro c first
  have stops := List.head?_dropWhile_not kind text
  rwa [first] at stops

/-- No quote, no parenthesis and no brace. -/
def isFlat (c : Char) : Bool :=
  !isQuote c && c != '(' && c != ')' && c != '{' && c != '}'

namespace Nesting

theorem step_flat {hash : Bool} {c : Char} (flat : isFlat c = true) :
    Nesting.step { afterHash := hash } c = { afterHash := c == '#' } := by
  simp only [isFlat, Bool.and_eq_true, Bool.not_eq_true', bne_iff_ne, ne_eq]
    at flat
  obtain ⟨⟨⟨⟨quote, opening⟩, closing⟩, brace⟩, -⟩ := flat
  simp [step, Quoting.isOutside, quote, opening, closing, brace]

private theorem after_flat {hash : Bool} {text : Text}
    (flat : ∀ c ∈ text, isFlat c = true) :
    ∃ last, Nesting.after { afterHash := hash } text =
      { afterHash := last } := by
  induction text generalizing hash with
  | nil => exact ⟨hash, rfl⟩
  | cons c rest ih =>
      obtain ⟨last, same⟩ := @ih (c == '#') fun d member =>
        flat d (by simp [member])
      refine ⟨last, ?_⟩
      change Nesting.after (Nesting.step { afterHash := hash } c) rest = _
      rw [step_flat (flat c (by simp)), same]

theorem checkClosed_flat {text : Text} (flat : ∀ c ∈ text, isFlat c = true) :
    (Nesting.after {} text).checkClosed = .ok () := by
  obtain ⟨last, same⟩ := @after_flat false text flat
  rw [same]
  rfl

theorem afterHash_append (nesting : Nesting) (text : Text) (c : Char) :
    (nesting.after (text ++ [c])).afterHash = (c == '#') := by
  have last : nesting.after (text ++ [c]) = (nesting.after text).step c :=
    List.foldl_append
  rw [last]
  unfold step
  dsimp only
  repeat' split
  all_goals rfl

/-- A flat text is read up to the first character that stops the reading.
Before a brace it must not end with `#`. -/
theorem spanUntil_flat {stop : Char → Bool} {hash : Bool}
    {text rest : Text} {c : Char}
    (flat : ∀ d ∈ text, isFlat d = true ∧ stop d = false)
    (plain : isQuote c = false ∧ c ≠ '(' ∧ c ≠ ')') (stops : stop c = true)
    (noHole : c = '{' →
      (Nesting.after { afterHash := hash } text).afterHash = false) :
    spanUntil stop { afterHash := hash } (text ++ c :: rest) = text := by
  induction text generalizing hash with
  | nil =>
      have top : Nesting.isTop { afterHash := hash } c = true := by
        by_cases brace : c = '{'
        · have none := noHole brace
          simp only [after, List.foldl_nil] at none
          simp [isTop, Quoting.isOutside, brace, none, isQuote]
        · simp [isTop, Quoting.isOutside, plain, brace]
      rw [List.nil_append, spanUntil, top, stops]
      rfl
  | cons d text ih =>
      obtain ⟨flatHead, passed⟩ := flat d (by simp)
      have tail := @ih (d == '#') (fun e member => flat e (by simp [member]))
        fun brace => by
        have none := noHole brace
        rwa [show Nesting.after { afterHash := hash } (d :: text) =
          Nesting.after (Nesting.step { afterHash := hash } d) text from rfl,
          step_flat flatHead] at none
      rw [List.cons_append, spanUntil, passed, Bool.and_false, if_neg (by simp),
        step_flat flatHead, tail]

end Nesting

/-- A text without holes is filled as it is. -/
theorem fill_whole (environment : Environment) {text : Text}
    (whole : Text.occurs ['#', '{'] text = false) (state : State) :
    Compile.fill environment (Template.ofText text) state = .ok text state := by
  induction text with
  | nil =>
      rw [Template.ofText]
      rfl
  | cons c rest ih =>
      rw [Text.occurs, Bool.or_eq_false_iff] at whole
      have noHole : ∀ inner, c = '#' → rest = '{' :: inner → False := by
        rintro inner rfl rfl
        simp at whole
      rw [Template.ofText.eq_3 c rest noHole]
      simp [Compile.fill, ih whole.2]

private theorem occurs_plain {text : Text} (plain : ∀ c ∈ text, c ≠ '{') :
    Text.occurs ['#', '{'] text = false := by
  induction text with
  | nil => rfl
  | cons c rest ih =>
      rw [Text.occurs, ih fun d member => plain d (by simp [member]),
        Bool.or_false]
      cases rest with
      | nil => simp [List.isPrefixOf]
      | cons d rest =>
          have other : '{' ≠ d := (plain d (by simp)).symm
          simp [List.isPrefixOf, other]

theorem interpolate_plain (environment : Environment) {text : Text}
    (plain : ∀ c ∈ text, c ≠ '{') (state : State) :
    Compile.interpolate environment text state = .ok text state :=
  fill_whole environment (occurs_plain plain) state

private theorem Functions.resolveAfter_plain (functions : Functions)
    {quoting : Quoting} {out text : Text} (plain : ∀ c ∈ text, c ≠ '(') :
    functions.resolveAfter quoting out text =
      .ok { value := out.reverse ++ text } := by
  induction text generalizing quoting out with
  | nil =>
      rw [resolveAfter, List.append_nil]
  | cons c rest ih =>
      have other : (c == '(') = false := by simpa using plain c (by simp)
      rw [resolveAfter]
      simp only [other, Bool.and_false, Bool.false_and,
        Bool.false_eq_true, if_false]
      rw [ih fun d member => plain d (by simp [member]), List.reverse_cons,
        List.append_assoc, List.singleton_append]

theorem Functions.resolve_plain (functions : Functions) {text : Text}
    (plain : ∀ c ∈ text, c ≠ '(') :
    functions.resolve text = .ok { value := text } :=
  functions.resolveAfter_plain plain

theorem Variable.occursIn_plain {text : Text} (plain : ∀ c ∈ text, c ≠ '$') :
    occursIn text = false := by
  induction text with
  | nil => rfl
  | cons c rest ih =>
      have other : (c == '$') = false := by simpa using plain c (by simp)
      rw [occursIn, other, ih fun d member => plain d (by simp [member])]
      rfl

theorem Variable.substitute_plain {text : Text} (plain : ∀ c ∈ text, c ≠ '$')
    (scopes : Scopes) :
    substitute text scopes = .ok text scopes := by
  rw [substitute, maxRounds, substituteWithin, occursIn_plain plain]
  rfl

theorem Compile.resolveValue_plain {environment : Environment} {state : State}
    {text substituted : Text} {scopes : Scopes} (noHole : ∀ c ∈ text, c ≠ '{')
    (noCall : ∀ c ∈ substituted, c ≠ '(')
    (replaced : Variable.substitute text state.scopes =
      .ok substituted scopes) :
    resolveValue environment text state =
      .ok substituted.normalize { state with scopes } := by
  simp only [resolveValue, finishValue, bind_apply,
    interpolate_plain environment noHole, resolving, replaced,
    Functions.resolve_plain _ noCall, check]
  rfl

private theorem Comment.stripFrom_plain {previous : Option Char} {text : Text}
    (plain : ∀ c ∈ text, isQuote c = false ∧ c ≠ '/') :
    stripFrom (.code .outside) previous text = text := by
  induction text generalizing previous with
  | nil => rw [stripFrom]
  | cons c rest ih =>
      have head := plain c (by simp)
      have tail := @ih (some c) fun d member => plain d (by simp [member])
      rw [stripFrom_keep fun _ => head.2, Quoting.step_outside head.1, tail]

theorem Comment.strip_plain {text : Text}
    (plain : ∀ c ∈ text, isQuote c = false ∧ c ≠ '/') :
    strip text = text :=
  stripFrom_plain plain

/-- The characters that have a meaning of their own somewhere in a
stylesheet. -/
def marks : Text :=
  ['"', '\'', '(', ')', '[', ']', '{', '}', ';', ':', ',', '/', '@', '!', '$']

/-- Neither blank nor a mark. -/
def isOrdinary (c : Char) : Bool :=
  !isBlank c && !marks.contains c

theorem visible_of_ordinary {c : Char} (ordinary : isOrdinary c = true) :
    isBlank c = false := by
  simp only [isOrdinary, Bool.and_eq_true, Bool.not_eq_true'] at ordinary
  exact ordinary.1

theorem ne_of_ordinary {c mark : Char} (ordinary : isOrdinary c = true)
    (special : mark ∈ marks) :
    c ≠ mark := by
  rintro rfl
  simp only [isOrdinary, Bool.and_eq_true, Bool.not_eq_true',
    List.contains_eq_mem, decide_eq_false_iff_not] at ordinary
  exact ordinary.2 special

theorem unquoted_of_ordinary {c : Char} (ordinary : isOrdinary c = true) :
    isQuote c = false := by
  have double := @ne_of_ordinary c '"' ordinary (by decide)
  have single := @ne_of_ordinary c '\'' ordinary (by decide)
  simp [isQuote, double, single]

theorem flat_of_ordinary {c : Char} (ordinary : isOrdinary c = true) :
    isFlat c = true := by
  have opening := @ne_of_ordinary c '(' ordinary (by decide)
  have closing := @ne_of_ordinary c ')' ordinary (by decide)
  have left := @ne_of_ordinary c '{' ordinary (by decide)
  have right := @ne_of_ordinary c '}' ordinary (by decide)
  simp [isFlat, unquoted_of_ordinary ordinary, opening, closing, left, right]

theorem ordinary_of_isAlphanum {c : Char} (letter : c.isAlphanum = true) :
    isOrdinary c = true := by
  have visible : isBlank c = false := by
    delta Char.isAlphanum Char.isAlpha Char.isUpper Char.isLower at letter
    simp only [Char.isDigit, Bool.or_eq_true, Bool.and_eq_true,
      decide_eq_true_eq, ge_iff_le, UInt32.le_iff_toNat_le] at letter
    simp only [isBlank, ← Char.toNat_val, Bool.or_eq_false_iff,
      Bool.and_eq_false_iff, decide_eq_false_iff_not,
      beq_eq_false_iff_ne, ne_eq]
    have bounds : c.val.toNat ≤ 0x7A ∧ 0x30 ≤ c.val.toNat := by
      rcases letter with (⟨low, high⟩ | ⟨low, high⟩) | ⟨low, high⟩ <;>
        exact ⟨Nat.le_trans high (by decide), Nat.le_trans (by decide) low⟩
    omega
  have special : c ∉ marks := by
    intro member
    have none : ∀ mark ∈ marks, mark.isAlphanum = false := by decide
    rw [none c member] at letter
    contradiction
  simp [isOrdinary, visible, special]

theorem ordinary_of_isNameChar {c : Char} (name : isNameChar c = true) :
    isOrdinary c = true := by
  simp only [isNameChar, Bool.or_eq_true, beq_iff_eq] at name
  rcases name with (letter | rfl) | rfl
  · exact ordinary_of_isAlphanum letter
  · decide
  · decide

/-- Neither a comma nor anything that could hide one. -/
def isListed (c : Char) : Bool :=
  !isQuote c && !(['(', ')', '[', ']', ','].contains c)

theorem Grouping.step_listed {c : Char} (listed : isListed c = true) :
    Grouping.step {} c = {} := by
  simp only [isListed, Bool.and_eq_true, Bool.not_eq_true',
    List.contains_eq_mem, decide_eq_false_iff_not, List.mem_cons,
    List.not_mem_nil, or_false, not_or] at listed
  obtain ⟨quote, opening, closing, left, right, -⟩ := listed
  simp [step, Quoting.isOutside, opening, closing, left, right,
    Quoting.step_outside quote]

theorem not_comma_of_listed {c : Char} (listed : isListed c = true) :
    (c == ',') = false := by
  rw [beq_eq_false_iff_ne]
  rintro rfl
  exact absurd listed (by decide)

theorem Text.splitCommas_last {text : Text}
    (listed : ∀ c ∈ text, isListed c = true) :
    splitCommas text = [text] := by
  unfold splitCommas
  induction text with
  | nil => rfl
  | cons c rest ih =>
      have head := listed c (by simp)
      rw [splitCommasFrom, not_comma_of_listed head, Grouping.step_listed head,
        ih fun d member => listed d (by simp [member])]
      rfl

theorem Text.splitCommas_cons {text rest : Text}
    (listed : ∀ c ∈ text, isListed c = true) :
    splitCommas (text ++ ',' :: rest) = text :: splitCommas rest := by
  unfold splitCommas
  induction text with
  | nil => rfl
  | cons c others ih =>
      have head := listed c (by simp)
      rw [List.cons_append, splitCommasFrom, not_comma_of_listed head,
        Grouping.step_listed head, ih fun d member =>
          listed d (by simp [member])]
      rfl

theorem listed_of_ordinary {c : Char} (ordinary : isOrdinary c = true) :
    isListed c = true := by
  have special : ∀ mark ∈ ['(', ')', '[', ']', ','], mark ∈ marks :=
    by decide
  have absent : c ∉ ['(', ')', '[', ']', ','] :=
    fun member => ne_of_ordinary ordinary (special c member) rfl
  simp only [isListed, unquoted_of_ordinary ordinary,
    List.contains_eq_mem, absent]
  rfl

/-- Words of characters of one kind, with single spaces between them. -/
inductive Tidy (kind : Char → Bool) : Text → Prop where
  | char {c : Char} : kind c = true → Tidy kind [c]
  | cons {c : Char} {text : Text} : kind c = true → Tidy kind text →
      Tidy kind (c :: text)
  | gap {c : Char} {text : Text} : kind c = true → Tidy kind text →
      Tidy kind (c :: ' ' :: text)

namespace Tidy

variable {kind : Char → Bool} {text first second : Text}

theorem append (left : Tidy kind first) (right : Tidy kind second) :
    Tidy kind (first ++ second) := by
  induction left with
  | char head => exact .cons head right
  | cons head _ ih => exact .cons head ih
  | gap head _ ih => exact .gap head ih

theorem append_gap (left : Tidy kind first) (right : Tidy kind second) :
    Tidy kind (first ++ ' ' :: second) := by
  induction left with
  | char head => exact .gap head right
  | cons head _ ih => exact .cons head ih
  | gap head _ ih => exact .gap head ih

theorem mem (tidy : Tidy kind text) : ∀ c ∈ text, kind c = true ∨ c = ' ' := by
  intro c member
  induction tidy with
  | char head =>
      rw [List.mem_singleton] at member
      exact .inl (member ▸ head)
  | cons head _ ih =>
      rcases List.mem_cons.mp member with rfl | member
      · exact .inl head
      · exact ih member
  | gap head _ ih =>
      rcases List.mem_cons.mp member with rfl | member
      · exact .inl head
      · rcases List.mem_cons.mp member with rfl | member
        · exact .inr rfl
        · exact ih member

theorem head (tidy : Tidy kind text) : ∃ c rest, text = c :: rest ∧
    kind c = true := by
  cases tidy with
  | char head => exact ⟨_, _, rfl, head⟩
  | cons head _ => exact ⟨_, _, rfl, head⟩
  | gap head _ => exact ⟨_, _, rfl, head⟩

theorem last (tidy : Tidy kind text) : ∃ lead c, text = lead ++ [c] ∧
    kind c = true := by
  induction tidy with
  | char head => exact ⟨[], _, rfl, head⟩
  | @cons c text head _ ih =>
      obtain ⟨lead, d, rfl, ending⟩ := ih
      exact ⟨c :: lead, d, rfl, ending⟩
  | @gap c text head _ ih =>
      obtain ⟨lead, d, rfl, ending⟩ := ih
      exact ⟨c :: ' ' :: lead, d, rfl, ending⟩

theorem length_pos (tidy : Tidy kind text) : 0 < text.length := by
  obtain ⟨c, rest, rfl, -⟩ := tidy.head
  simp

end Tidy

theorem isBlank_of_isSpace {c : Char} (space : isSpace c = true) :
    isBlank c = true := by
  simp only [isSpace, Bool.or_eq_true, beq_iff_eq] at space
  rcases space with ((((rfl | rfl) | rfl) | rfl) | rfl) | rfl <;> decide

namespace Text

private theorem trimStart_blank {before text : Text}
    (blank : ∀ c ∈ before, isBlank c = true) :
    trimStart (before ++ text) = trimStart text :=
  List.dropWhile_append_of_pos blank

private theorem trimStart_cons {c : Char} {text : Text}
    (visible : isBlank c = false) :
    trimStart (c :: text) = c :: text :=
  List.dropWhile_cons_of_neg (by simp [visible])

theorem trimEnd_append {text after : Text} {c : Char}
    (visible : isBlank c = false) (blank : ∀ d ∈ after, isBlank d = true) :
    trimEnd (text ++ [c] ++ after) = text ++ [c] := by
  unfold trimEnd
  rw [List.reverse_append, List.dropWhile_append_of_pos (by simpa using blank),
    List.reverse_append, List.reverse_singleton, List.singleton_append,
    List.dropWhile_cons_of_neg (by simp [visible])]
  simp

theorem trim_filled {text : Text} {c : Char} (member : c ∈ text)
    (visible : isBlank c = false) :
    (trim text).isEmpty = false := by
  obtain ⟨before, after, blankBefore, blankAfter, whole⟩ := text.exists_trim
  have kept : c ∈ text.trim := by
    rw [whole, List.mem_append, List.mem_append] at member
    rcases member with (front | inside) | back
    · rw [blankBefore c front] at visible
      contradiction
    · exact inside
    · rw [blankAfter c back] at visible
      contradiction
  rw [List.isEmpty_eq_false_iff]
  exact List.ne_nil_of_mem kept

/-- Text that starts and ends with something visible loses only what is around
it. -/
theorem trim_around {before middle after : Text} {first last : Char}
    (blankBefore : ∀ c ∈ before, isBlank c = true)
    (blankAfter : ∀ c ∈ after, isBlank c = true)
    (head : middle.head? = some first) (visibleFirst : isBlank first = false)
    (ending : middle.getLast? = some last)
    (visibleLast : isBlank last = false) :
    trim (before ++ middle ++ after) = middle := by
  obtain ⟨rest, starts⟩ := List.head?_eq_some_iff.mp head
  obtain ⟨lead, ends⟩ := List.getLast?_eq_some_iff.mp ending
  unfold trim
  rw [List.append_assoc, trimStart_blank blankBefore, starts, List.cons_append,
    trimStart_cons visibleFirst, ← List.cons_append, ← starts, ends,
    trimEnd_append visibleLast blankAfter]

theorem wordsAfter_blank {word after : Text}
    (blank : ∀ c ∈ after, isBlank c = true) :
    wordsAfter word after = if word.isEmpty then [] else [word.reverse] := by
  induction after generalizing word with
  | nil => rfl
  | cons c rest ih =>
      have tail := @ih [] fun d member => blank d (by simp [member])
      rw [wordsAfter, if_pos (blank c (by simp)), tail]
      cases word with
      | nil => rfl
      | cons d word => rfl

theorem wordsAfter_visible {c : Char} (visible : isBlank c = false)
    (word rest : Text) :
    wordsAfter word (c :: rest) = wordsAfter (c :: word) rest := by
  rw [wordsAfter, visible, if_neg Bool.false_ne_true]

theorem intercalate_append_head (separator front part : Text)
    (parts : List Text) :
    separator.intercalate ((front ++ part) :: parts) =
      front ++ separator.intercalate (part :: parts) := by
  cases parts with
  | nil => rw [List.intercalate_singleton, List.intercalate_singleton]
  | cons other parts =>
      rw [List.intercalate_cons_cons, List.intercalate_cons_cons,
        List.append_assoc, List.append_assoc, List.append_assoc]

theorem words_blank {before text : Text}
    (blank : ∀ c ∈ before, isBlank c = true) :
    words (before ++ text) = words text := by
  unfold words
  induction before with
  | nil => rfl
  | cons c rest ih =>
      rw [List.cons_append, wordsAfter, if_pos (blank c (by simp))]
      exact ih fun d member => blank d (by simp [member])

end Text

section Plain

variable {kind : Char → Bool} {text before after : Text}

theorem Tidy.trim_around (plain : ∀ c, kind c = true → isBlank c = false)
    (tidy : Tidy kind text) (blankBefore : ∀ c ∈ before, isBlank c = true)
    (blankAfter : ∀ c ∈ after, isBlank c = true) :
    Text.trim (before ++ text ++ after) = text := by
  obtain ⟨first, rest, starts, visibleFirst⟩ := tidy.head
  obtain ⟨lead, last, ends, visibleLast⟩ := tidy.last
  exact Text.trim_around blankBefore blankAfter (by simp [starts])
    (plain _ visibleFirst) (by simp [ends]) (plain _ visibleLast)

theorem Tidy.trim_eq (plain : ∀ c, kind c = true → isBlank c = false)
    (tidy : Tidy kind text) :
    Text.trim text = text := by
  have around := @tidy.trim_around _ _ [] [] plain (by simp) (by simp)
  simpa using around

private theorem Tidy.intercalate_words
    (plain : ∀ c, kind c = true → isBlank c = false) (tidy : Tidy kind text)
    (blank : ∀ c ∈ after, isBlank c = true) (word : Text) :
    [' '].intercalate (Text.wordsAfter word (text ++ after)) =
      word.reverse ++ text := by
  induction tidy generalizing word with
  | @char c head =>
      rw [List.singleton_append, Text.wordsAfter_visible (plain c head),
        Text.wordsAfter_blank blank]
      simp [List.intercalate]
  | @cons c text head _ ih =>
      rw [List.cons_append, Text.wordsAfter_visible (plain c head), ih]
      simp
  | @gap c text head tidy ih =>
      rw [List.cons_append, List.cons_append,
        Text.wordsAfter_visible (plain c head), Text.wordsAfter,
        if_pos (by decide), if_neg (by simp)]
      have rest := ih []
      cases others : Text.wordsAfter [] (text ++ after) with
      | nil =>
          rw [others] at rest
          have empty : text = [] := rest.symm
          have nonempty := tidy.length_pos
          simp [empty] at nonempty
      | cons next others' =>
          rw [others] at rest
          rw [List.intercalate_cons_cons, rest]
          simp

theorem Tidy.collapse_around (plain : ∀ c, kind c = true → isBlank c = false)
    (tidy : Tidy kind text) (blankBefore : ∀ c ∈ before, isBlank c = true)
    (blankAfter : ∀ c ∈ after, isBlank c = true) :
    Text.collapse (before ++ text ++ after) = text := by
  unfold Text.collapse
  rw [List.append_assoc, Text.words_blank blankBefore]
  exact tidy.intercalate_words plain blankAfter []

theorem Tidy.normalizeAfter
    (plain : ∀ c, kind c = true → isBlank c = false ∧ isQuote c = false)
    (tidy : Tidy kind text) (gap : Bool) :
    Text.normalizeAfter .outside gap text = if gap then ' ' :: text
      else text := by
  have kept : ∀ {c : Char} (gap : Bool) (rest : Text), kind c = true →
      Text.normalizeAfter .outside gap (c :: rest) =
        if gap then ' ' :: c :: Text.normalizeAfter .outside false rest
        else c :: Text.normalizeAfter .outside false rest := by
    intro c gap rest head
    obtain ⟨visible, quote⟩ := plain c head
    rw [Text.normalizeAfter, Quoting.step_outside quote]
    simp [Quoting.isOutside, visible]
  induction tidy generalizing gap with
  | char head => rw [kept gap [] head, Text.normalizeAfter]
  | @cons c text head _ ih =>
      rw [kept gap text head, ih false, if_neg Bool.false_ne_true]
  | @gap c text head _ ih =>
      have blank : Text.normalizeAfter .outside false (' ' :: text) =
          ' ' :: text := by
        rw [Text.normalizeAfter, if_pos (by rfl), if_pos (by decide),
          ih true, if_pos rfl]
      rw [kept gap (' ' :: text) head, blank]

theorem Tidy.normalize_eq
    (plain : ∀ c, kind c = true → isBlank c = false ∧ isQuote c = false)
    (tidy : Tidy kind text) (blankBefore : ∀ c ∈ before, isBlank c = true)
    (blankAfter : ∀ c ∈ after, isBlank c = true) :
    Text.normalize (before ++ text ++ after) = text := by
  unfold Text.normalize
  rw [tidy.trim_around (fun c head => (plain c head).1) blankBefore blankAfter,
    tidy.normalizeAfter plain, if_neg (by simp)]

theorem Tidy.unquote_eq (plain : ∀ c, kind c = true → isQuote c = false)
    (tidy : Tidy kind text) :
    Text.unquote text = text := by
  obtain ⟨c, rest, rfl, head⟩ := tidy.head
  simp only [Text.unquote, plain c head, Bool.false_and,
    Bool.false_eq_true, if_false]
  split
  · rfl
  · rfl

end Plain

end Stylesheet
