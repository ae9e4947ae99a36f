import Mathlib.Data.List.Infix
import Stylesheet.Comment

/-!
# The grammar of commented text

A commented text is put together from plain characters, strings, line comments,
block comments and lone slashes.  `Segment` has one constructor for each of
them, with the conditions on the segment itself; the two conditions on its
neighbours are in `Segment.Fits`.  Taking the comments out keeps every other
segment as it is, and of a line comment its line break.
-/

namespace Stylesheet.Comment

section

variable {previous : Option Char} {rest : Text}

/-- A `/` that opens no comment is kept. -/
theorem stripFrom_slash (line : rest.head? = some '/' → previous = some ':')
    (block : rest.head? ≠ some '*') :
    stripFrom (.code .outside) previous ('/' :: rest) =
      '/' :: stripFrom (.code .outside) (some '/') rest := by
  cases rest with
  | nil => rfl
  | cons c rest =>
      have noLine : ¬ (c == '/' && previous != some ':') = true := by
        simpa using line
      have noBlock : ¬ (c == '*') = true := by
        simpa using block
      rw [stripFrom, if_neg noLine, if_neg noBlock]

/-- A line comment leaves its line break. -/
theorem stripFrom_line {body : Text} (unbroken : '\n' ∉ body) :
    stripFrom .line previous (body ++ '\n' :: rest) =
      '\n' :: stripFrom (.code .outside) (some '\n') rest := by
  induction body with
  | nil => rfl
  | cons c body ih =>
      obtain ⟨first, later⟩ := not_or.mp (mt List.mem_cons.mpr unbroken)
      have other : ¬ (c == '\n') = true := by
        simpa using Ne.symm first
      rw [List.cons_append, stripFrom, if_neg other, ih later]

end

/-- What stands between the quotes of a string: a backslash with any character,
or a character that is neither a backslash nor the quote. -/
inductive Item (mark : Char) where
  | escaped (c : Char)
  | char (c : Char) (plain : c ≠ '\\' ∧ c ≠ mark)

def Item.text {mark : Char} : Item mark → Text
  | .escaped c => ['\\', c]
  | .char c _ => [c]

theorem Item.stripFrom_text {mark : Char} (item : Item mark)
    (previous : Option Char) (rest : Text) :
    stripFrom (.code (.inside mark)) previous (item.text ++ rest) =
      item.text ++ stripFrom (.code (.inside mark))
        item.text.getLast? rest := by
  cases item with
  | escaped c => rfl
  | char c plain =>
      have stays : Quoting.step (.inside mark) c = .inside mark := by
        simp [Quoting.step, plain]
      change stripFrom _ _ (c :: rest) = c :: stripFrom _ (some c) rest
      rw [stripFrom_keep (by simp), stays]

/-- A string is kept up to its closing quote. -/
theorem stripFrom_items {mark : Char} (quote : isQuote mark = true)
    (items : List (Item mark)) (previous : Option Char) (rest : Text) :
    stripFrom (.code (.inside mark)) previous
      (items.flatMap Item.text ++ mark :: rest) =
      items.flatMap Item.text ++ mark :: stripFrom (.code .outside)
        (some mark) rest := by
  induction items generalizing previous with
  | nil =>
      have other : mark ≠ '\\' := by
        rintro rfl
        simp [isQuote] at quote
      have ends : Quoting.step (.inside mark) mark = .outside := by
        simp [Quoting.step, other]
      rw [List.flatMap_nil, List.nil_append, List.nil_append,
        stripFrom_keep (by simp), ends]
  | cons item items ih =>
      rw [List.flatMap_cons, List.append_assoc, item.stripFrom_text, ih,
        List.append_assoc]

/-- In the body of a block comment and the `*/` behind it, there is a `*/` at
the end only. -/
def Closes (body : Text) : Prop :=
  ∀ front later, body ++ ['*', '/'] = front ++ '*' :: '/' :: later → later = []

private theorem closes_iff_not_infix {body : Text} :
    Closes body ↔ ¬ ['*', '/'] <:+: body ++ ['*'] := by
  constructor
  · rintro closes ⟨front, later, inside⟩
    have whole :
        body ++ ['*', '/'] = front ++ '*' :: '/' :: (later ++ ['/']) := by
      have extended := congrArg (· ++ ['/']) inside
      simpa using extended.symm
    simpa using closes front _ whole
  · intro absent front later whole
    by_contra some
    -- A later end leaves the last character of the text behind the `*/`.
    obtain ⟨middle, last, rfl⟩ :=
      List.eq_nil_or_concat later |>.resolve_left some
    have ends : body ++ ['*'] ++ ['/'] =
        front ++ ['*', '/'] ++ middle ++ [last] := by
      simpa using whole
    exact absent ⟨front, middle, (List.append_inj_left' ends rfl).symm⟩

instance (body : Text) : Decidable (Closes body) :=
  decidable_of_iff _ closes_iff_not_infix.symm

/-- A block comment leaves nothing.  When the last character read was a `*`, it
counts as part of the body. -/
theorem stripFrom_block {star : Bool} {body : Text}
    (closes : Closes ((if star then ['*'] else []) ++ body))
    (previous : Option Char) (rest : Text) :
    stripFrom (.block star) previous (body ++ '*' :: '/' :: rest) =
      stripFrom (.code .outside) previous rest := by
  induction body generalizing star with
  | nil =>
      have going : ¬ (star && '*' == '/') = true := by
        simp
      rw [List.nil_append, stripFrom, if_neg going]
      rfl
  | cons c body ih =>
      have going : ¬ (star && c == '/') = true := by
        intro ends
        obtain ⟨rfl, rfl⟩ : star = true ∧ c = '/' := by
          simpa using ends
        have nothing := closes [] (body ++ ['*', '/']) rfl
        simp at nothing
      rw [List.cons_append, stripFrom, if_neg going]
      refine ih fun front later whole => ?_
      by_cases starred : c = '*'
      · subst starred
        refine closes ((if star then ['*'] else []) ++ front) later ?_
        simpa using whole
      · refine closes ((if star then ['*'] else []) ++ c :: front) later ?_
        simpa [starred] using whole

/-- A piece of commented text. -/
inductive Segment where
  | plain (c : Char) (ordinary : isQuote c = false ∧ c ≠ '/')
  | string (mark : Char) (quote : isQuote mark = true)
      (items : List (Item mark))
  | line (body : Text) (unbroken : '\n' ∉ body)
  | block (body : Text) (closes : Closes body)
  | slash

namespace Segment

/-- A segment as it is written. -/
def text : Segment → Text
  | .plain c _ => [c]
  | .string mark _ items => mark :: (items.flatMap Item.text ++ [mark])
  | .line body _ => '/' :: '/' :: (body ++ ['\n'])
  | .block body _ => '/' :: '*' :: (body ++ ['*', '/'])
  | .slash => ['/']

/-- What is left of a segment without comments. -/
def kept : Segment → Text
  | .line _ _ => ['\n']
  | .block _ _ => []
  | segment => segment.text

/-- What a segment asks of its neighbours, the last character kept in front of
it and the segments that follow: a `//` behind a `:` is no comment, and a lone
slash stands in front of no character that would open one. -/
def Fits (previous : Option Char) (following : List Segment) : Segment → Prop
  | .line _ _ => previous ≠ some ':'
  | .slash =>
      let next := following.head?.bind fun segment => segment.text.head?
      next ≠ some '/' ∧ next ≠ some '*'
  | _ => True

/-- Every segment fits, when `output` has been kept in front of them. -/
def FitAfter (output : Text) : List Segment → Prop
  | [] => True
  | segment :: following =>
      segment.Fits output.getLast? following ∧
        FitAfter (output ++ segment.kept) following

instance (previous : Option Char) (following : List Segment) :
    (segment : Segment) →
    Decidable (segment.Fits previous following)
  | .line _ _ => inferInstanceAs (Decidable (_ ≠ _))
  | .slash => inferInstanceAs (Decidable (_ ∧ _))
  | .plain _ _ | .string _ _ _ | .block _ _ => .isTrue trivial

instance decidableFitAfter (output : Text) : (segments : List Segment) →
    Decidable (FitAfter output segments)
  | [] => .isTrue trivial
  | segment :: following =>
      have := decidableFitAfter (output ++ segment.kept) following
      inferInstanceAs (Decidable (_ ∧ _))

private theorem text_ne_nil (segment : Segment) : segment.text ≠ [] := by
  cases segment <;> simp [text]

private theorem head?_flatMap_text (segments : List Segment) :
    (segments.flatMap text).head? = segments.head?.bind fun segment =>
      segment.text.head? := by
  cases segments with
  | nil => rfl
  | cons segment following =>
      rw [List.flatMap_cons, List.head?_append_of_ne_nil _ segment.text_ne_nil]
      rfl

/-- A segment that fits is read as a whole. -/
theorem Fits.stripFrom_text {segment : Segment} {previous : Option Char}
    {following : List Segment} (fits : segment.Fits previous following) :
    stripFrom (.code .outside) previous
      (segment.text ++ following.flatMap text) =
      segment.kept ++ stripFrom (.code .outside)
        (segment.kept.getLast?.or previous) (following.flatMap text) := by
  cases segment with
  | plain c ordinary =>
      have stays : Quoting.step .outside c = .outside := by
        simp [Quoting.step, ordinary.1]
      change stripFrom _ _ (c :: _) = c :: _
      rw [stripFrom_keep fun _ => ordinary.2, stays]
      rfl
  | string mark quote items =>
      have opens : Quoting.step .outside mark = .inside mark := by
        simp [Quoting.step, quote]
      have other : mark ≠ '/' := by
        rintro rfl
        simp [isQuote] at quote
      have last : (kept (.string mark quote items)).getLast? = some mark :=
        @List.getLast?_concat _ (mark :: items.flatMap Item.text) mark
      rw [last]
      simp only [kept, text, List.cons_append, List.append_assoc,
        List.nil_append]
      rw [stripFrom_keep fun _ => other, opens, stripFrom_items quote]
      rfl
  | line body unbroken =>
      have opens : ('/' == '/' && previous != some ':') = true := by
        simpa [Fits] using fits
      simp only [kept, text, List.cons_append, List.append_assoc,
        List.nil_append]
      rw [stripFrom, if_pos opens, stripFrom_line unbroken]
      rfl
  | block body closes =>
      have noLine : ¬ ('*' == '/' && previous != some ':') = true := by
        simp
      simp only [kept, text, List.cons_append, List.append_assoc,
        List.nil_append]
      rw [stripFrom, if_neg noLine, if_pos (by rfl),
        stripFrom_block (by simpa using closes)]
      rfl
  | slash =>
      obtain ⟨noLine, noBlock⟩ := fits
      rw [← head?_flatMap_text] at noLine noBlock
      exact stripFrom_slash (fun line => absurd line noLine) noBlock

theorem FitAfter.stripFrom_text {output : Text} {segments : List Segment}
    (fit : FitAfter output segments) :
    stripFrom (.code .outside) output.getLast? (segments.flatMap text) =
      segments.flatMap kept := by
  induction segments generalizing output with
  | nil => rfl
  | cons segment following ih =>
      obtain ⟨first, later⟩ := fit
      have remembered : (output ++ segment.kept).getLast? =
          segment.kept.getLast?.or output.getLast? :=
        List.getLast?_append
      rw [List.flatMap_cons, first.stripFrom_text, ← remembered, ih later,
        List.flatMap_cons]

/-- Taking the comments out of a text made of segments leaves, in order, the
plain characters, the strings and the lone slashes, and a line break for each
line comment. -/
theorem strip_segments (segments : List Segment) (fit : FitAfter [] segments) :
    strip (segments.flatMap text) = segments.flatMap kept :=
  fit.stripFrom_text

/-- `x/"//\"*"/**/:/***/` and then, in two lines, `a// '` and `// b`: markers in
a string, stars in front of the end of a comment, and comments back to back. -/
def sample : List Segment :=
  [.plain 'x' (by decide), .slash,
    .string '"' rfl [.char '/' (by decide), .char '/' (by decide), .escaped '"',
      .char '*' (by decide)],
    .block [] (by decide), .plain ':' (by decide), .block ['*'] (by decide),
    .plain 'a' (by decide), .line [' ', '\''] (by decide),
    .line [' ', 'b'] (by decide)]

theorem strip_segments_sample :
    FitAfter [] sample ∧
      strip (sample.flatMap text) = "x/\"//\\\"*\":a\n\n".toList :=
  ⟨by decide, (strip_segments sample (by decide)).trans (by decide)⟩

end Segment

end Stylesheet.Comment
