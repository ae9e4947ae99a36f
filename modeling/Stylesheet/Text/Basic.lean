/-!
# Text

A stylesheet is handled as a list of characters.  This module holds the
character classes and the small operations on text that the rest of the
library is written with.
-/

namespace Stylesheet

/-- A run of characters. -/
abbrev Text := List Char

/-- White space in the sense of the Unicode property `White_Space`. -/
def isBlank (c : Char) : Bool :=
  let code := c.toNat
  (9 ≤ code && code ≤ 13) || code == 0x20 || code == 0x85 || code == 0xA0 ||
    code == 0x1680 || (0x2000 ≤ code && code ≤ 0x200A) || code == 0x2028 ||
    code == 0x2029 || code == 0x202F || code == 0x205F || code == 0x3000

/-- White space between the statements of a stylesheet. -/
def isSpace (c : Char) : Bool :=
  c == ' ' || c == '\t' || c == '\n' || c == '\x0b' || c == '\x0c' || c == '\r'

/-- The characters of names: ASCII letters and digits, `-` and `_`. -/
def isNameChar (c : Char) : Bool :=
  c.isAlphanum || c == '-' || c == '_'

namespace Text

def trimStart (text : Text) : Text :=
  text.dropWhile isBlank

def trimEnd (text : Text) : Text :=
  (text.reverse.dropWhile isBlank).reverse

/-- The text without the blanks at its ends. -/
def trim (text : Text) : Text :=
  trimEnd (trimStart text)

theorem exists_trimEnd (text : Text) :
    ∃ after, (∀ c ∈ after, isBlank c = true) ∧
      text = text.trimEnd ++ after := by
  refine ⟨(text.reverse.takeWhile isBlank).reverse, ?_, ?_⟩
  · intro c member
    exact List.all_eq_true.mp List.all_takeWhile c (List.mem_reverse.mp member)
  · rw [trimEnd, ← List.reverse_append, List.takeWhile_append_dropWhile,
      List.reverse_reverse]

theorem exists_trim (text : Text) :
    ∃ before after, (∀ c ∈ before, isBlank c = true) ∧
      (∀ c ∈ after, isBlank c = true) ∧
      text = before ++ text.trim ++ after := by
  obtain ⟨after, blankAfter, ending⟩ := exists_trimEnd text.trimStart
  refine ⟨text.takeWhile isBlank, after, ?_, blankAfter, ?_⟩
  · intro c member
    exact List.all_eq_true.mp List.all_takeWhile c member
  · rw [List.append_assoc, trim, ← ending, trimStart,
      List.takeWhile_append_dropWhile]

/-- The maximal runs of characters that are not blank, given the run read so
far in reverse. -/
def wordsAfter (word : Text) : Text → List Text
  | [] => if word.isEmpty then [] else [word.reverse]
  | c :: rest =>
      if isBlank c then
        if word.isEmpty then wordsAfter [] rest
        else word.reverse :: wordsAfter [] rest
      else wordsAfter (c :: word) rest

/-- The maximal runs of characters that are not blank. -/
def words (text : Text) : List Text :=
  wordsAfter [] text

/-- The words of a text with one space between neighbours. -/
def collapse (text : Text) : Text :=
  [' '].intercalate (words text)

/-- ASCII letters in lower case, every other character as it is. -/
def lower (text : Text) : Text :=
  text.map Char.toLower

/-- Equality up to the case of ASCII letters. -/
def sameLetters (first second : Text) : Bool :=
  lower first == lower second

/-- Whether `pattern` stands somewhere in the text. -/
def occurs (pattern : Text) : Text → Bool
  | [] => pattern.isEmpty
  | c :: rest => pattern.isPrefixOf (c :: rest) || occurs pattern rest

/-- Drops the occurrences of `pattern` from left to right, after skipping the
first `pending` characters. -/
def eraseAfter (pattern : Text) : Nat → Text → Text
  | _, [] => []
  | pending + 1, _ :: rest => eraseAfter pattern pending rest
  | 0, c :: rest =>
      if !pattern.isEmpty && pattern.isPrefixOf (c :: rest) then
        eraseAfter pattern (pattern.length - 1) rest
      else c :: eraseAfter pattern 0 rest

/-- The text without the occurrences of `pattern`, taken from left to right. -/
def erase (pattern text : Text) : Text :=
  eraseAfter pattern 0 text

/-- Splits at every `separator`, whatever surrounds it. -/
def splitAt (separator : Char) : Text → List Text
  | [] => [[]]
  | c :: rest =>
      if c == separator then [] :: splitAt separator rest
      else
        match splitAt separator rest with
        | [] => [[c]]
        | part :: parts => (c :: part) :: parts

/-- Lexicographic order by code point. -/
def compare : Text → Text → Ordering :=
  List.compareLex fun a b => Ord.compare a.toNat b.toNat

/-- The number of bytes of the UTF-8 form. -/
def byteLength (text : Text) : Nat :=
  text.foldl (fun total c => total + c.utf8Size) 0

/-- Decimal digits of a natural number. -/
def ofNat (value : Nat) : Text :=
  Nat.toDigits 10 value

end Text

end Stylesheet
