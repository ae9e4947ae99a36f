import Stylesheet.Proofs.PlainText

/-!
# Normal text

Values are brought to a normal form in which blanks outside of strings are
single spaces between other characters.  Nothing but such blanks is changed, so
that strings are kept, and a text in normal form is left as it is.
-/

namespace Stylesheet

/-- The text neither starts nor ends with a blank. -/
structure Trimmed (text : Text) : Prop where
  first : ∀ c, text.head? = some c → isBlank c = false
  last : ∀ c, text.getLast? = some c → isBlank c = false

namespace Text

theorem trimmed_trim (text : Text) : Trimmed text.trim := by
  constructor
  · intro c first
    obtain ⟨after, -, ending⟩ := exists_trimEnd text.trimStart
    have starts : text.trimStart.head? = some c := by
      rw [ending, List.head?_append]
      exact Option.or_eq_some_iff.mpr (.inl first)
    exact visible_dropWhile text c starts
  · intro c last
    apply visible_dropWhile text.trimStart.reverse c
    rwa [trim, trimEnd, List.getLast?_reverse] at last

end Text

theorem Trimmed.trim_eq {text : Text} (trimmed : Trimmed text) :
    text.trim = text := by
  cases text with
  | nil => rfl
  | cons c rest =>
      have last := List.getLast?_eq_some_getLast (List.cons_ne_nil c rest)
      have around :=
        @Text.trim_around [] (c :: rest) [] c _ (by simp) (by simp) rfl
        (trimmed.first c rfl) last (trimmed.last _ last)
      simpa using around

/-- The text without its blanks outside of strings. -/
def bare (quoting : Quoting) : Text → Text
  | [] => []
  | c :: rest =>
      if quoting.isOutside && isBlank c then bare quoting rest
      else c :: bare (quoting.step c) rest

/-- The string literals of a text, each with its quotes; the last one may be
open.  If the text starts in a string, then the rest of that string comes
first. -/
def literalsFrom (quoting : Quoting) : Text → List Text
  | [] => if quoting.isOutside then [] else [[]]
  | c :: rest =>
      let others := literalsFrom (quoting.step c) rest
      if quoting.isOutside then
        if isQuote c then others.modifyHead (c :: ·) else others
      else if (quoting.step c).isOutside then [c] :: others
      else others.modifyHead (c :: ·)

def literals (text : Text) : List Text :=
  literalsFrom .outside text

example : literals "a \"b  c\" d \"e ".toList =
    ["\"b  c\"".toList, "\"e ".toList] := by
  decide

theorem not_isQuote_of_isBlank {c : Char} (blank : isBlank c = true) :
    isQuote c = false := by
  rw [isQuote, Bool.or_eq_false_iff, beq_eq_false_iff_ne, beq_eq_false_iff_ne]
  constructor
  · rintro rfl
    contradiction
  · rintro rfl
    contradiction

theorem step_of_isBlank {quoting : Quoting} {c : Char}
    (outside : quoting.isOutside = true) (blank : isBlank c = true) :
    quoting.step c = quoting := by
  obtain rfl := Quoting.eq_outside outside
  exact Quoting.step_outside (not_isQuote_of_isBlank blank)

theorem literalsFrom_bare (quoting : Quoting) (text : Text) :
    literalsFrom quoting (bare quoting text) = literalsFrom quoting text := by
  induction text generalizing quoting with
  | nil => rfl
  | cons c rest ih =>
      cases dropped : quoting.isOutside && isBlank c with
      | true =>
          obtain ⟨outside, blank⟩ := Bool.and_eq_true_iff.mp dropped
          rw [bare, if_pos dropped, ih, literalsFrom,
            step_of_isBlank outside blank, if_pos outside,
            not_isQuote_of_isBlank blank, if_neg Bool.false_ne_true]
      | false =>
          rw [bare, dropped, if_neg Bool.false_ne_true, literalsFrom,
            literalsFrom, ih]

namespace Text

variable {quoting : Quoting} {c : Char}

theorem normalizeAfter_skip (outside : quoting.isOutside = true)
    (blank : isBlank c = true) (gap : Bool) (rest : Text) :
    normalizeAfter quoting gap (c :: rest) =
      normalizeAfter quoting true rest := by
  rw [normalizeAfter, if_pos outside, if_pos blank]

theorem normalizeAfter_keep (outside : quoting.isOutside = true)
    (visible : isBlank c = false) (gap : Bool) (rest : Text) :
    normalizeAfter quoting gap (c :: rest) =
      (if gap then [' '] else []) ++ c :: normalizeAfter (quoting.step c)
        false rest := by
  rw [normalizeAfter, if_pos outside, visible, if_neg Bool.false_ne_true]
  cases gap with
  | false => rfl
  | true => rfl

theorem normalizeAfter_string (inside : quoting.isOutside = false) (gap : Bool)
    (rest : Text) :
    normalizeAfter quoting gap (c :: rest) =
      c :: normalizeAfter (quoting.step c) gap rest := by
  rw [normalizeAfter, inside, if_neg Bool.false_ne_true]

private theorem bare_normalizeAfter (quoting : Quoting) (gap : Bool)
    (text : Text) :
    bare quoting (normalizeAfter quoting gap text) = bare quoting text := by
  induction text generalizing quoting gap with
  | nil => rfl
  | cons c rest ih =>
      cases outside : quoting.isOutside with
      | false =>
          rw [normalizeAfter_string outside, bare, bare, outside,
            Bool.false_and, if_neg Bool.false_ne_true,
            if_neg Bool.false_ne_true, ih]
      | true =>
          cases blank : isBlank c with
          | true =>
              rw [normalizeAfter_skip outside blank, ih, bare, outside, blank,
                if_pos (by decide)]
          | false =>
              have kept : bare quoting
                  (c :: normalizeAfter (quoting.step c) false rest) =
                  bare quoting (c :: rest) := by
                rw [bare, bare, outside, blank, if_neg (by decide),
                  if_neg (by decide), ih]
              rw [normalizeAfter_keep outside blank]
              cases gap with
              | false => exact kept
              | true =>
                  change bare quoting
                    (' ' :: c :: normalizeAfter (quoting.step c) false rest) = _
                  rw [bare, outside, if_pos (by decide), kept]

end Text

/-- Each blank outside of strings is a space, and a character that is not blank
comes next. -/
def SpacedFrom (quoting : Quoting) (text : Text) : Prop :=
  ∀ before c after, text = before ++ c :: after →
    quoting.after before = .outside →
    isBlank c = true → c = ' ' ∧ ∃ next rest, after = next :: rest ∧
      isBlank next = false

/-- There are no blanks at the ends, and only single spaces outside of
strings. -/
structure Normal (text : Text) : Prop where
  trimmed : Trimmed text
  spaced : SpacedFrom .outside text

private theorem spacedFrom_nil (quoting : Quoting) : SpacedFrom quoting [] := by
  intro before c after whole
  simp at whole

theorem spacedFrom_cons {quoting : Quoting} {c : Char} {rest : Text} :
    SpacedFrom quoting (c :: rest) ↔
      (quoting = .outside → isBlank c = true →
        c = ' ' ∧ ∃ next others, rest = next :: others ∧ isBlank next = false) ∧
        SpacedFrom (quoting.step c) rest := by
  constructor
  · intro spaced
    constructor
    · exact spaced [] c rest rfl
    · intro before d after whole
      exact spaced (c :: before) d after (by rw [whole, List.cons_append])
  · rintro ⟨here, later⟩ before d after whole
    cases before with
    | nil =>
        obtain ⟨rfl, rfl⟩ := List.cons.inj whole
        exact here
    | cons e before =>
        obtain ⟨rfl, behind⟩ := List.cons.inj whole
        exact later before d after behind

namespace Text

private theorem spacedFrom_normalizeAfter (quoting : Quoting) (gap : Bool)
    (text : Text) :
    SpacedFrom quoting (normalizeAfter quoting gap text) := by
  induction text generalizing quoting gap with
  | nil => exact spacedFrom_nil quoting
  | cons c rest ih =>
      cases outside : quoting.isOutside with
      | false =>
          rw [normalizeAfter_string outside, spacedFrom_cons]
          constructor
          · rintro rfl
            contradiction
          · exact ih _ _
      | true =>
          cases blank : isBlank c with
          | true =>
              rw [normalizeAfter_skip outside blank]
              exact ih _ _
          | false =>
              have kept : SpacedFrom quoting
                  (c :: normalizeAfter (quoting.step c) false rest) := by
                rw [spacedFrom_cons]
                constructor
                · intro _ impossible
                  rw [blank] at impossible
                  contradiction
                · exact ih _ _
              rw [normalizeAfter_keep outside blank]
              cases gap with
              | false => exact kept
              | true =>
                  apply spacedFrom_cons.mpr
                  constructor
                  · intro _ _
                    exact ⟨rfl, c, _, rfl, blank⟩
                  · rw [step_of_isBlank outside (by decide)]
                    exact kept

/-- Single spaces are left as they are. -/
theorem normalizeAfter_of_spacedFrom {quoting : Quoting} {text : Text}
    (spaced : SpacedFrom quoting text) :
    normalizeAfter quoting false text = text := by
  induction text generalizing quoting with
  | nil => rfl
  | cons c rest ih =>
      obtain ⟨here, later⟩ := spacedFrom_cons.mp spaced
      have same := ih later
      cases outside : quoting.isOutside with
      | false => rw [normalizeAfter_string outside, same]
      | true =>
          cases blank : isBlank c with
          | false =>
              rw [normalizeAfter_keep outside blank, same]
              rfl
          | true =>
              -- The space comes back in front of the character behind it.
              obtain ⟨rfl, next, others, rfl, visible⟩ :=
                here (Quoting.eq_outside outside) blank
              rw [step_of_isBlank outside blank,
                normalizeAfter_keep outside visible] at same
              rw [normalizeAfter_skip outside blank,
                normalizeAfter_keep outside visible]
              exact congrArg (' ' :: ·) same

/-- A last character that is not blank stays the last one. -/
theorem exists_normalizeAfter_last (quoting : Quoting) (gap : Bool)
    (front : Text) {last : Char} (visible : isBlank last = false) :
    ∃ kept, normalizeAfter quoting gap (front ++ [last]) = kept ++ [last] := by
  induction front generalizing quoting gap with
  | nil =>
      cases outside : quoting.isOutside with
      | false => exact ⟨[], normalizeAfter_string outside gap []⟩
      | true => exact ⟨_, normalizeAfter_keep outside visible gap []⟩
  | cons c rest ih =>
      rw [List.cons_append]
      cases outside : quoting.isOutside with
      | false =>
          obtain ⟨kept, same⟩ := ih (quoting.step c) gap
          exact ⟨c :: kept,
            by rw [normalizeAfter_string outside, same, List.cons_append]⟩
      | true =>
          cases blank : isBlank c with
          | true =>
              rw [normalizeAfter_skip outside blank]
              exact ih quoting true
          | false =>
              obtain ⟨kept, same⟩ := ih (quoting.step c) false
              refine ⟨(if gap then [' '] else []) ++ c :: kept, ?_⟩
              rw [normalizeAfter_keep outside blank, same, List.append_assoc,
                List.cons_append]

private theorem trimmed_normalize (text : Text) : Trimmed text.normalize := by
  have trimmed := trimmed_trim text
  constructor
  · intro c first
    rw [normalize] at first
    cases whole : text.trim with
    | nil =>
        rw [whole] at first
        contradiction
    | cons d rest =>
        have visible := trimmed.first d (by rw [whole, List.head?_cons])
        rw [whole, normalizeAfter_keep rfl visible] at first
        obtain rfl := Option.some.inj first
        exact visible
  · intro c last
    rw [normalize] at last
    cases ends : text.trim.getLast? with
    | none =>
        rw [List.getLast?_eq_none_iff.mp ends] at last
        contradiction
    | some d =>
        obtain ⟨front, whole⟩ := List.getLast?_eq_some_iff.mp ends
        have visible := trimmed.last d ends
        obtain ⟨kept, same⟩ :=
          exists_normalizeAfter_last .outside false front visible
        rw [whole, same, List.getLast?_concat] at last
        obtain rfl := Option.some.inj last
        exact visible

theorem normal_normalize (text : Text) : Normal text.normalize := by
  constructor
  · exact trimmed_normalize text
  · exact spacedFrom_normalizeAfter .outside false text.trim

theorem normalize_eq_self_iff {text : Text} : text.normalize = text ↔
    Normal text := by
  constructor
  · intro same
    rw [← same]
    exact normal_normalize text
  · intro normal
    rw [normalize, normal.trimmed.trim_eq]
    exact normalizeAfter_of_spacedFrom normal.spaced

private theorem wordsAfter_ne_nil {word : Text} (filled : word ≠ [])
    (text : Text) :
    wordsAfter word text ≠ [] := by
  induction text generalizing word with
  | nil => simp [wordsAfter, filled]
  | cons c rest ih =>
      cases blank : isBlank c with
      | true => simp [wordsAfter, blank, filled]
      | false =>
          rw [wordsAfter_visible blank]
          exact ih (List.cons_ne_nil c word)

private theorem wordsAfter_append_blank {after : Text}
    (blank : ∀ c ∈ after, isBlank c = true) (word text : Text) :
    wordsAfter word (text ++ after) = wordsAfter word text := by
  induction text generalizing word with
  | nil => exact wordsAfter_blank blank
  | cons c rest ih => rw [List.cons_append, wordsAfter, wordsAfter, ih, ih]

private theorem words_trim (text : Text) : words text.trim = words text := by
  obtain ⟨before, after, blankBefore, blankAfter, whole⟩ := exists_trim text
  calc
    words text.trim = words (text.trim ++ after) :=
      (wordsAfter_append_blank blankAfter [] _).symm
    _ = words (before ++ (text.trim ++ after)) := (words_blank blankBefore).symm
    _ = words text := by rw [← List.append_assoc, ← whole]

/-- A gap is written as an empty word in front. -/
theorem normalizeAfter_eq_intercalate {text : Text}
    (plain : ∀ c ∈ text, isQuote c = false) :
    normalizeAfter .outside true text = [' '].intercalate ([] :: words text) ∧
      ∀ word, word ≠ [] →
        word.reverse ++ normalizeAfter .outside false text =
          [' '].intercalate (wordsAfter word text) := by
  induction text with
  | nil =>
      constructor
      · rfl
      · intro word filled
        simp [normalizeAfter, wordsAfter, filled]
  | cons c rest ih =>
      obtain ⟨gapped, joined⟩ :=
        ih fun d member => plain d (List.mem_cons_of_mem c member)
      have stays := Quoting.step_outside (plain c List.mem_cons_self)
      cases blank : isBlank c with
      | true =>
          constructor
          · rw [normalizeAfter_skip rfl blank, gapped, words, words,
              wordsAfter, if_pos blank]
            rfl
          · intro word filled
            rw [normalizeAfter_skip rfl blank, gapped, wordsAfter, if_pos blank,
              if_neg (by simp [filled]), ← intercalate_append_head,
              List.append_nil, words]
      | false =>
          constructor
          · have next := joined [c] (List.cons_ne_nil c [])
            obtain ⟨first, others, split⟩ :=
              List.exists_cons_of_ne_nil
                (wordsAfter_ne_nil (List.cons_ne_nil c []) rest)
            rw [split] at next
            rw [normalizeAfter_keep rfl blank, stays, words,
              wordsAfter_visible blank, split,
              List.intercalate_cons_cons, ← next]
            rfl
          · intro word filled
            rw [normalizeAfter_keep rfl blank, stays, wordsAfter_visible blank,
              ← joined (c :: word) (List.cons_ne_nil c word), List.reverse_cons,
              List.append_assoc]
            rfl

private theorem normalize_eq_collapse {text : Text}
    (plain : ∀ c ∈ text, isQuote c = false) :
    text.normalize = text.collapse := by
  rw [collapse, ← words_trim, normalize]
  have visible := (trimmed_trim text).first
  have within : ∀ c ∈ text.trim, isQuote c = false := by
    obtain ⟨before, after, -, -, whole⟩ := exists_trim text
    intro c member
    apply plain
    rw [whole]
    simp [member]
  cases whole : text.trim with
  | nil => rfl
  | cons c rest =>
      rw [whole] at visible within
      have stays := Quoting.step_outside (within c List.mem_cons_self)
      have blank := visible c rfl
      have joined := (normalizeAfter_eq_intercalate
        fun d member => within d (List.mem_cons_of_mem c member)).2 [c]
          (List.cons_ne_nil c [])
      rw [normalizeAfter_keep rfl blank, stays, words,
        wordsAfter_visible blank, ← joined]
      rfl

/-- The result is in normal form, and exactly the texts in normal form are left
as they are, so that normalizing twice is normalizing once.  Only blanks outside
of strings are changed: the strings are those of the trimmed text.  A text
without quotes becomes its words with single spaces in between. -/
theorem normalize_exact (text : Text) :
    text.normalize.normalize = text.normalize ∧
      bare .outside text.normalize = bare .outside text.trim ∧
      literals text.normalize = literals text.trim ∧
      Normal text.normalize ∧ (text.normalize = text ↔ Normal text) ∧
      ((∀ c ∈ text, isQuote c = false) → text.normalize = text.collapse) := by
  have normal := normal_normalize text
  have kept : bare .outside text.normalize = bare .outside text.trim :=
    bare_normalizeAfter .outside false text.trim
  have strings : literals text.normalize = literals text.trim := by
    rw [literals, ← literalsFrom_bare, kept, literalsFrom_bare, literals]
  exact ⟨normalize_eq_self_iff.mpr normal, kept, strings, normal,
    normalize_eq_self_iff, normalize_eq_collapse⟩

end Text

end Stylesheet
