import Stylesheet.Proofs.CommentGrammar
import Stylesheet.Proofs.Page

/-!
# How commented text is read

A reading marks every character of a commented text as kept or as part of a
comment, and tells where the reader stands at the end.  The marked characters
spell the text, and those that are kept spell the text without comments, so a
reading says where in the text each character of the result comes from.

Two facts about places are read off from it.  A `//` right behind a `:` is kept,
unless the character behind it makes a comment with its second slash.  And a
cursor over the text without comments gives the line in the text itself, less
the line breaks of the block comments that were passed.
-/

namespace Stylesheet.Comment

/-- What a character of a commented text is part of. -/
inductive Part where
  | kept
  | line
  | block
  deriving DecidableEq, Repr

/-- A commented text that has been read: its characters, each with what it is
part of, what the reader is inside of at the end, and the last character it has
kept. -/
structure Reading where
  parts : List (Char × Part)
  phase : Phase
  previous : Option Char
  deriving DecidableEq, Repr

/-- Puts one more character in front. -/
def Reading.mark (reading : Reading) (c : Char) (part : Part) : Reading :=
  { reading with parts := (c, part) :: reading.parts }

section

variable (reading : Reading) (c : Char) (part : Part)

@[simp] theorem Reading.parts_mark :
    (reading.mark c part).parts = (c, part) :: reading.parts :=
  rfl

@[simp] theorem Reading.phase_mark :
    (reading.mark c part).phase = reading.phase :=
  rfl

@[simp] theorem Reading.previous_mark :
    (reading.mark c part).previous = reading.previous :=
  rfl

end

/-- The reading of a text that starts inside `phase`, when the last character
kept was `previous`.  The line break at the end of a line comment is kept. -/
def readFrom : Phase → Option Char → Text → Reading
  | phase, previous, [] => { parts := [], phase, previous }
  | .line, previous, c :: rest =>
      if c == '\n' then (readFrom (.code .outside) (some c) rest).mark c .kept
      else (readFrom .line previous rest).mark c .line
  | .block star, previous, c :: rest =>
      if star && c == '/' then
        (readFrom (.code .outside) previous rest).mark c .block
      else (readFrom (.block (c == '*')) previous rest).mark c .block
  | .code .outside, previous, '/' :: c :: rest =>
      if c == '/' && previous != some ':' then
        ((readFrom .line previous rest).mark c .line).mark '/' .line
      else if c == '*' then
        ((readFrom (.block false) previous rest).mark c .block).mark '/' .block
      else (readFrom (.code .outside) (some '/') (c :: rest)).mark '/' .kept
  | .code quoting, _, c :: rest =>
      (readFrom (.code (quoting.step c)) (some c) rest).mark c .kept

def read (text : Text) : Reading :=
  readFrom (.code .outside) none text

/-- The text that marked characters spell. -/
def spelled (parts : List (Char × Part)) : Text :=
  parts.map Prod.fst

/-- The text that the kept ones among marked characters spell. -/
def keptText (parts : List (Char × Part)) : Text :=
  spelled (parts.filter fun part => part.2 == .kept)

section

variable (c : Char) (parts : List (Char × Part))

@[simp] theorem spelled_cons (part : Part) :
    spelled ((c, part) :: parts) = c :: spelled parts :=
  rfl

@[simp] theorem keptText_kept :
    keptText ((c, .kept) :: parts) = c :: keptText parts :=
  rfl

@[simp] theorem keptText_line :
    keptText ((c, .line) :: parts) = keptText parts :=
  rfl

@[simp] theorem keptText_block :
    keptText ((c, .block) :: parts) = keptText parts :=
  rfl

end

section

variable (phase : Phase) (previous : Option Char) (text : Text)

private theorem spelled_readFrom :
    spelled (readFrom phase previous text).parts = text := by
  fun_induction readFrom phase previous text with
  | case1 => rfl
  | _ => simp_all

private theorem keptText_readFrom :
    keptText (readFrom phase previous text).parts =
      stripFrom phase previous text := by
  fun_induction readFrom phase previous text with
  | case1 => rfl
  | _ => simp_all [stripFrom]

end

theorem getLast?_cons_cases {c d : Char} {rest : Text}
    (last : (c :: rest).getLast? = some d) :
    (rest = [] ∧ c = d) ∨ rest.getLast? = some d := by
  cases rest with
  | nil => exact .inl ⟨rfl, by simpa using last⟩
  | cons next rest => exact .inr (by simpa using last)

theorem getLast?_tail_ne {c d : Char} {rest : Text}
    (other : (c :: rest).getLast? ≠ some d) :
    rest.getLast? ≠ some d := by
  cases rest with
  | nil => simp
  | cons next rest => simpa using other

section

variable {phase : Phase} {previous : Option Char} {front : Text}

/-- Reading goes on where the reader of a text has stopped.  Only a `/` at the
end can be read in two ways. -/
theorem stripFrom_append (settled : front.getLast? ≠ some '/') (rest : Text) :
    stripFrom phase previous (front ++ rest) =
      stripFrom phase previous front ++
        stripFrom (readFrom phase previous front).phase
        (readFrom phase previous front).previous rest := by
  fun_induction readFrom phase previous front with
  | case1 phase previous => simp [stripFrom]
  | case2 previous c front ends ih =>
      simp [stripFrom, ends, ih (getLast?_tail_ne settled)]
  | case3 previous c front going ih =>
      simp [stripFrom, going, ih (getLast?_tail_ne settled)]
  | case4 star previous c front ends ih =>
      simp [stripFrom, ends, ih (getLast?_tail_ne settled)]
  | case5 star previous c front going ih =>
      simp [stripFrom, going, ih (getLast?_tail_ne settled)]
  | case6 previous c front line ih =>
      simp [stripFrom, line, ih (getLast?_tail_ne (getLast?_tail_ne settled))]
  | case7 previous c front noLine block ih =>
      simp [stripFrom, noLine, block,
        ih (getLast?_tail_ne (getLast?_tail_ne settled))]
  | case8 previous c front noLine noBlock ih =>
      rw [List.cons_append, List.cons_append, stripFrom, if_neg noLine,
        if_neg noBlock, ← List.cons_append, ih (getLast?_tail_ne settled),
        stripFrom, if_neg noLine, if_neg noBlock]
      rfl
  | case9 quoting previous c front lone ih =>
      -- A lone `/` would be the last character.
      have plain : quoting = .outside → c ≠ '/' := by
        rintro rfl rfl
        cases front with
        | nil => simp at settled
        | cons next front => exact lone next front rfl rfl rfl
      rw [List.cons_append, stripFrom_keep plain, stripFrom_keep plain,
        ih (getLast?_tail_ne settled)]
      rfl

/-- A reader that is in the code behind a text has kept its last character,
unless that may be the end of a block comment. -/
theorem previous_readFrom {quoting : Quoting} {c : Char}
    (code : (readFrom phase previous front).phase = .code quoting)
    (last : front.getLast? = some c) (other : c ≠ '/') :
    (readFrom phase previous front).previous = some c := by
  fun_induction readFrom phase previous front with
  | case1 phase previous => simp at last
  | case2 previous d front ends ih =>
      rcases getLast?_cons_cases last with ⟨rfl, rfl⟩ | last
      · rfl
      · exact ih code last
  | case3 previous d front going ih =>
      rcases getLast?_cons_cases last with ⟨rfl, rfl⟩ | last
      · simp [readFrom] at code
      · exact ih code last
  | case4 star previous d front ends ih =>
      rcases getLast?_cons_cases last with ⟨rfl, rfl⟩ | last
      · have closing : star = true ∧ d = '/' := by
          simpa using ends
        exact absurd closing.2 other
      · exact ih code last
  | case5 star previous d front going ih =>
      rcases getLast?_cons_cases last with ⟨rfl, rfl⟩ | last
      · simp [readFrom] at code
      · exact ih code last
  | case6 previous d front line ih =>
      rcases getLast?_cons_cases (by simpa using last) with ⟨rfl, rfl⟩ | last
      · simp [readFrom] at code
      · exact ih code last
  | case7 previous d front noLine block ih =>
      rcases getLast?_cons_cases (by simpa using last) with ⟨rfl, rfl⟩ | last
      · simp [readFrom] at code
      · exact ih code last
  | case8 previous d front noLine noBlock ih =>
      exact ih code (by simpa using last)
  | case9 quoting previous d front lone ih =>
      rcases getLast?_cons_cases last with ⟨rfl, rfl⟩ | last
      · rfl
      · exact ih code last

private theorem head?_stripFrom_line {text : Text} {c : Char}
    (first : (stripFrom .line previous text).head? = some c) : c = '\n' := by
  induction text with
  | nil => simp [stripFrom] at first
  | cons d rest ih =>
      rw [stripFrom] at first
      split at first
      · rename_i ends
        have found : d = c := by
          simpa using first
        rw [← found, eq_of_beq ends]
      · exact ih first

/-- Behind a colon in the code, the first slash is kept, and the second one is
read as any slash behind a slash. -/
theorem strip_slashes (outside : (read front).phase = .code .outside)
    (colon : front.getLast? = some ':') (text : Text) :
    strip (front ++ '/' :: '/' :: text) =
      strip front ++ '/' :: stripFrom (.code .outside) (some '/')
        ('/' :: text) := by
  have remembered : (read front).previous = some ':' :=
    previous_readFrom outside colon (by decide)
  have settled : front.getLast? ≠ some '/' := by
    simp [colon]
  calc
    strip (front ++ '/' :: '/' :: text) =
        strip front ++ stripFrom (read front).phase (read front).previous
          ('/' :: '/' :: text) :=
      stripFrom_append settled _
    _ = strip front ++ stripFrom (.code .outside) (some ':')
      ('/' :: '/' :: text) := by
      rw [outside, remembered]
    _ = _ := by
      rw [stripFrom_slash (fun _ => rfl) (by simp)]

/-- A `//` right behind a `:` in the code is kept, and what follows is read as
code, if it does not start with a slash or a star.  If it does, that character
and the second slash of the `//` open a comment, and behind a line comment there
is no slash that could stand for it. -/
theorem address_slashes_kept (outside : (read front).phase = .code .outside)
    (colon : front.getLast? = some ':') (text : Text) :
    (text.head? ≠ some '/' → text.head? ≠ some '*' →
      strip front ++ ['/', '/'] <+: strip (front ++ '/' :: '/' :: text) ∧
      strip (front ++ '/' :: '/' :: text) =
        strip front ++ '/' :: '/' :: stripFrom (.code .outside)
          (some '/') text) ∧
    (∀ rest, text = '/' :: rest →
      ¬ strip front ++ ['/', '/'] <+: strip (front ++ '/' :: '/' :: text) ∧
      strip (front ++ '/' :: '/' :: text) =
        strip front ++ '/' :: stripFrom .line (some '/') rest) ∧
    (∀ rest, text = '*' :: rest →
      strip (front ++ '/' :: '/' :: text) =
        strip front ++ '/' :: stripFrom (.block false) (some '/') rest) := by
  rw [strip_slashes outside colon]
  refine ⟨?plain, ?line, ?block⟩
  case plain =>
    intro noSlash noStar
    rw [stripFrom_slash (fun slash => absurd slash noSlash) noStar]
    exact ⟨⟨_, List.append_assoc ..⟩, rfl⟩
  case line =>
    rintro rest rfl
    have comment : stripFrom (.code .outside) (some '/') ('/' :: '/' :: rest) =
        stripFrom .line (some '/') rest := rfl
    rw [comment]
    refine ⟨fun starts => ?_, rfl⟩
    rw [List.prefix_append_right_inj, List.cons_prefix_cons] at starts
    obtain ⟨later, whole⟩ := starts.2
    have broken :=
      @head?_stripFrom_line (some '/') rest '/' (by rw [← whole]; rfl)
    exact absurd broken (by decide)
  case block =>
    rintro rest rfl
    rfl

end

/-- `http:` and `//h/x`. -/
theorem address_slashes_kept_host :
    ((read "http:".toList).phase = .code .outside ∧
      "http:".toList.getLast? = some ':') ∧
    strip "http:".toList ++ ['/', '/'] <+:
      strip ("http:".toList ++ '/' :: '/' :: "h/x".toList) :=
  have outside : (read "http:".toList).phase = .code .outside := by decide
  have colon : "http:".toList.getLast? = some ':' := by decide
  ⟨⟨outside, colon⟩,
    ((address_slashes_kept outside colon "h/x".toList).1 (by decide)
      (by decide)).1⟩

/-- In `file:///path` the last two of the slashes open a comment. -/
theorem address_slashes_lost :
    (read "file:".toList).phase = .code .outside ∧
      "file:".toList.getLast? = some ':' ∧
      strip ("file:".toList ++ '/' :: '/' :: "/path".toList) = "file:/".toList ∧
      ¬ strip "file:".toList ++ ['/', '/'] <+:
        strip ("file:".toList ++ '/' :: '/' :: "/path".toList) := by
  decide

/-- A line comment has no line break. -/
theorem unbroken_line (phase : Phase) (previous : Option Char) (text : Text) :
    ('\n', .line) ∉ (readFrom phase previous text).parts := by
  fun_induction readFrom phase previous text with
  | case3 previous c rest going ih =>
      have other : '\n' ≠ c := by
        rintro rfl
        exact going rfl
      simp [ih, other]
  | _ => simp_all

/-- Line breaks are kept, or they are part of a block comment. -/
theorem count_spelled {parts : List (Char × Part)}
    (unbroken : ('\n', .line) ∉ parts) :
    (spelled parts).count '\n' =
      (keptText parts).count '\n' + parts.count ('\n', .block) := by
  induction parts with
  | nil => rfl
  | cons first parts ih =>
      obtain ⟨c, part⟩ := first
      have later := ih fun member => unbroken (List.mem_cons_of_mem _ member)
      cases part with
      | kept =>
          rw [spelled_cons, keptText_kept, List.count_cons, List.count_cons,
            List.count_cons_of_ne (by simp), later]
          omega
      | line =>
          have other : c ≠ '\n' := by
            rintro rfl
            exact unbroken List.mem_cons_self
          rw [spelled_cons, keptText_line, List.count_cons_of_ne other,
            List.count_cons_of_ne (by simp), later]
      | block =>
          by_cases broken : c = '\n'
          · rw [broken, spelled_cons, keptText_block, List.count_cons_self,
              List.count_cons_self, later, Nat.add_assoc]
          · rw [spelled_cons, keptText_block, List.count_cons_of_ne broken,
              List.count_cons_of_ne (by simpa using broken), later]

/-- Every character of the result comes from a place in the text. -/
theorem exists_place {parts : List (Char × Part)}
    {before after : Text} {c : Char}
    (emitted : keptText parts = before ++ c :: after) :
    ∃ front rest, parts = front ++ (c, .kept) :: rest ∧
      keptText front = before := by
  induction parts generalizing before with
  | nil => simp [keptText, spelled] at emitted
  | cons first parts ih =>
      obtain ⟨d, part⟩ := first
      cases part with
      | kept =>
          rw [keptText_kept] at emitted
          cases before with
          | nil =>
              obtain ⟨rfl, -⟩ := List.cons.inj emitted
              exact ⟨[], parts, rfl, rfl⟩
          | cons e before =>
              obtain ⟨rfl, later⟩ := List.cons.inj emitted
              obtain ⟨front, rest, rfl, rfl⟩ := ih later
              exact ⟨(d, .kept) :: front, rest, rfl, rfl⟩
      | line =>
          obtain ⟨front, rest, rfl, rfl⟩ := ih emitted
          exact ⟨(d, .line) :: front, rest, rfl, rfl⟩
      | block =>
          obtain ⟨front, rest, rfl, rfl⟩ := ih emitted
          exact ⟨(d, .block) :: front, rest, rfl, rfl⟩

/-- The line on which the character behind `front` stands. -/
def lineBehind (front : Text) : Nat :=
  1 + front.count '\n'

/-- How many lines too late a character is reported: a line break has the number
of the line that it begins. -/
def late (c : Char) : Nat :=
  if c = '\n' then 1 else 0

private theorem late_eq_zero {c : Char} : late c = 0 ↔ c ≠ '\n' := by
  simp [late]

/-- A cursor in the text of a file, wherever that text is spliced in, gives the
line of its current character in the text that it reads, or the next one if this
is a line break. -/
theorem line_cursor {page : Page} {text before after : Text} {c : Char}
    {file : Option Text} (split : text = before ++ c :: after)
    (top : page.top = { text, passed := before.length, file, start := 1 }) :
    page.cursor.current = some c ∧
      page.cursor.location.line = lineBehind before + late c := by
  have left : page.top.left = c :: after := by
    rw [top, Passage.left, split, List.drop_left]
  constructor
  · change page.pending.head? = some c
    rw [page.head?_pending, left]
    rfl
  · change page.top.lineAfter (page.top.passed + 1) = _
    have passed : text.take (before.length + 1) = before ++ [c] := by
      rw [split, List.take_append, List.take_of_length_le (Nat.le_succ _)]
      simp
    rw [top, Passage.lineAfter, passed, lineBehind, List.count_append,
      List.count_singleton, Nat.add_assoc]
    simp [late]

/-- Every character of the result has a place in the text.  In front of it, the
text has the line breaks that the result has, and those of block comments.  Its
line is more than the line that a cursor gives by as many, but a line break is
reported one line late.  So the cursor gives the line of the character, with the
line breaks in front of it, exactly if no block comment in front of the
character has a line break and it is none itself. -/
theorem line_kept_iff_blocks_unbroken {text before after : Text} {c : Char}
    (emitted : strip text = before ++ c :: after) {page : Page}
    {file : Option Text}
    (top : page.top =
      { text := strip text, passed := before.length, file, start := 1 }) :
    ∃ front rest, (read text).parts = front ++ (c, .kept) :: rest ∧
      keptText front = before ∧
      text = spelled front ++ c :: spelled rest ∧
      page.cursor.current = some c ∧
      (spelled front).count '\n' =
        before.count '\n' + front.count ('\n', .block) ∧
      lineBehind (spelled front) + late c =
        page.cursor.location.line + front.count ('\n', .block) ∧
      (before.count '\n' = (spelled front).count '\n' ↔
        ('\n', .block) ∉ front) ∧
      (before.count '\n' = (spelled front).count '\n' ∧
        page.cursor.location.line = lineBehind (spelled front) ↔
          ('\n', .block) ∉ front ∧ c ≠ '\n') := by
  obtain ⟨front, rest, parts, rfl⟩ :=
    exists_place ((keptText_readFrom (.code .outside) none text).trans emitted)
  have whole : text = spelled front ++ c :: spelled rest := by
    have spelling := spelled_readFrom (.code .outside) none text
    rw [parts] at spelling
    simpa [spelled] using spelling.symm
  have breaks := @count_spelled front fun member =>
    unbroken_line (.code .outside) none text
      (parts ▸ List.mem_append_left _ member)
  obtain ⟨current, line⟩ := line_cursor emitted top
  have lines : lineBehind (spelled front) + late c =
      page.cursor.location.line + front.count ('\n', .block) := by
    rw [line, lineBehind, lineBehind, breaks]
    omega
  refine ⟨front, rest, parts, rfl, whole, current, breaks, lines, ?_, ?_⟩
  · rw [← List.count_eq_zero, breaks]
    omega
  · rw [← List.count_eq_zero, ← late_eq_zero, breaks]
    omega

/-- `c` in `a//b`, a line break, and `/* */c`. -/
theorem line_kept_behind_comments :
    let text := "a//b\n/* */c".toList
    let page := (Page.ofText (strip text) none).advanceBy 2
    strip text = ['a', '\n'] ++ 'c' :: [] ∧
    page.top = { text := strip text, passed := 2, file := none, start := 1 } ∧
    ∃ front rest, (read text).parts = front ++ ('c', .kept) :: rest ∧
      lineBehind (spelled front) =
        page.cursor.location.line + front.count ('\n', .block) := by
  have emitted : strip "a//b\n/* */c".toList = ['a', '\n'] ++ 'c' :: [] := by
    decide
  have top :
      ((Page.ofText (strip "a//b\n/* */c".toList) none).advanceBy 2).top =
      { text := strip "a//b\n/* */c".toList, passed := 2, file := none
        start := 1 } := by
    decide
  obtain ⟨front, rest, parts, -, -, -, -, lines, -⟩ :=
    line_kept_iff_blocks_unbroken emitted top
  exact ⟨emitted, top, front, rest, parts, lines⟩

/-- A line break is reported on the line that it begins. -/
example :
    (Cursor.ofText (strip "a\nb".toList) none).advance.advance.location.line =
      2 ∧
      lineBehind ['a'] = 1 := by
  decide

/-- A block comment takes its line break away, so the character behind it is
reported one line too high. -/
theorem line_lost_in_block :
    strip "/*\n*/a".toList = [] ++ 'a' :: [] ∧
      "/*\n*/a".toList = "/*\n*/".toList ++ 'a' :: [] ∧
      ([] : Text).count '\n' ≠ "/*\n*/".toList.count '\n' ∧
      (Cursor.ofText (strip "/*\n*/a".toList) none).advance.current = some 'a' ∧
      (Cursor.ofText (strip "/*\n*/a".toList) none).advance.location.line = 1 ∧
      lineBehind "/*\n*/".toList = 2 := by
  decide

end Stylesheet.Comment
