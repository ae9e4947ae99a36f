import Stylesheet.File.Tree

/-!
# Input

Input is asked for one character after the other.  A text is read from a
position that moves on.  Bytes are read line by line: the characters of a line
wait in a queue until they are asked for, and the first line that is not in
UTF-8 ends the input.
-/

namespace Stylesheet

/-- What an input gives when it is asked for at most `count` characters. -/
def characters {σ : Type} (next : σ → Option Char × σ) :
    (count : Nat) → (input : σ) → Text
  | 0, _ => []
  | count + 1, input =>
      match next input with
      | (some c, later) => c :: characters next count later
      | (none, _) => []

/-- If an input always gives the first of the characters that it holds and keeps
the others, then it gives what it holds. -/
theorem characters_eq {σ : Type} {next : σ → Option Char × σ} {held : σ → Text}
    (gives : ∀ input, (next input).1 = (held input).head? ∧
      held (next input).2 = (held input).tail) {count : Nat} {input : σ}
    (enough : (held input).length ≤ count) :
    characters next count input = held input := by
  induction count generalizing input with
  | zero => exact (List.eq_nil_of_length_eq_zero (Nat.le_zero.mp enough)).symm
  | succ count ih =>
      obtain ⟨first, others⟩ := gives input
      rcases asked : next input with ⟨_ | c, later⟩
      · rw [asked] at first
        rw [characters, asked, List.head?_eq_none_iff.mp first.symm]
      · rw [asked] at first others
        obtain ⟨rest, whole⟩ : ∃ rest, held input = c :: rest :=
          List.head?_eq_some_iff.mp first.symm
        rw [whole] at others enough ⊢
        rw [characters, asked]
        dsimp only at others ⊢
        rw [ih (by rw [others]; exact Nat.le_of_succ_le_succ enough), others]
        rfl

/-- A text and the position of its next character. -/
structure TextInput where
  text : String
  position : text.Pos

namespace TextInput

def ofText (text : Text) : TextInput :=
  ⟨String.ofList text, String.startPos _⟩

def next (input : TextInput) : Option Char × TextInput :=
  if more : input.position ≠ input.text.endPos then
    (some (input.position.get more), ⟨input.text, input.position.next more⟩)
  else (none, input)

/-- The part of the text that has not been read. -/
def rest (input : TextInput) : Text :=
  (input.text.sliceFrom input.position).copy.toList

theorem next_rest (input : TextInput) :
    input.next.1 = input.rest.head? ∧ input.next.2.rest = input.rest.tail := by
  unfold next
  split
  · rename_i more
    have here : input.rest =
        input.position.get more ::
          (input.text.sliceFrom (input.position.next more)).copy.toList := by
      rw [rest, input.position.splits.eq_right
        (input.position.splits_next_right more)]
      simp
    constructor
    · rw [here]
      rfl
    · rw [here]
      rfl
  · rename_i ended
    have empty : input.rest = [] := by
      rw [rest, input.position.splits.eq_endPos_iff.mp
        (Decidable.not_not.mp ended)]
      rfl
    simp [empty]

theorem rest_ofText (text : Text) : (ofText text).rest = text := by
  have whole := (String.splits_startPos (String.ofList text)).copy_sliceFrom_eq
  rw [rest, ofText, whole, String.toList_ofList]

theorem characters_ofText (text : Text) :
    characters next text.length (ofText text) = text := by
  have whole : (ofText text).rest = text := rest_ofText text
  rw [characters_eq next_rest (Nat.le_of_eq (congrArg List.length whole)),
    whole]

end TextInput

/-- The first line with its line feed, and the bytes behind it. -/
def firstLine? : List UInt8 → Option (List UInt8 × List UInt8)
  | [] => none
  | byte :: rest =>
      if byte == 10 then some ([byte], rest)
      else
        match firstLine? rest with
        | none => some ([byte], [])
        | some (line, others) => some (byte :: line, others)

theorem firstLine?_eq_none {bytes : List UInt8} : firstLine? bytes = none ↔
    bytes = [] := by
  cases bytes with
  | nil => simp [firstLine?]
  | cons byte rest =>
      rw [firstLine?]
      repeat' split
      all_goals simp

theorem firstLine?_append {bytes line others : List UInt8}
    (split : firstLine? bytes = some (line, others)) :
    line ≠ [] ∧ line ++ others = bytes := by
  fun_induction firstLine? bytes generalizing line others with
  | case1 => contradiction
  | case2 byte rest =>
      cases split
      simp
  | case3 byte rest plain last ih =>
      cases split
      simp [firstLine?_eq_none.mp last]
  | case4 byte rest plain line others found ih =>
      cases split
      simp [(ih found).2]

/-- Bytes of which the characters in `queue` have been read before their
turn. -/
structure LineInput where
  bytes : List UInt8
  queue : Text := []
  ended : Bool := false
  deriving DecidableEq, Repr

namespace LineInput

def ofBytes (bytes : ByteArray) : LineInput :=
  { bytes := bytes.data.toList }

/-- Reads a line into the queue.  The input ends if there is none, or if it is
not in UTF-8. -/
def fill (input : LineInput) : LineInput :=
  match firstLine? input.bytes with
  | none => { input with ended := true }
  | some (line, bytes) =>
      match FileTree.decode? line.toByteArray with
      | some text => { input with bytes, queue := input.queue ++ text }
      | none => { input with bytes, ended := true }

/-- Either the input ends, or fewer bytes are left. -/
theorem fill_shorter (input : LineInput) :
    input.fill.ended = false →
      input.fill.bytes.length < input.bytes.length := by
  unfold fill
  split
  · simp
  · rename_i line bytes split
    obtain ⟨filled, whole⟩ := firstLine?_append split
    have positive := List.length_pos_iff.mpr filled
    have lengths := congrArg List.length whole
    rw [List.length_append] at lengths
    split
    · intro
      simp only
      omega
    · simp

/-- Reads lines until there is a character to give. -/
def refill (input : LineInput) : LineInput :=
  if input.queue.isEmpty && !input.ended then input.fill.refill else input
termination_by if input.ended then 0 else input.bytes.length + 1
decreasing_by
  have going : input.ended = false := by simp_all
  have shorter := fill_shorter input
  cases ended : input.fill.ended <;> simp_all

def next (input : LineInput) : Option Char × LineInput :=
  match input.refill with
  | ⟨bytes, c :: queue, ended⟩ => (some c, ⟨bytes, queue, ended⟩)
  | input => (none, input)

end LineInput

end Stylesheet
