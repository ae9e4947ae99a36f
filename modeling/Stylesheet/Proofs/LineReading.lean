import Stylesheet.Compile.Run

/-!
# Reading bytes as text

Bytes that are read line by line give the characters of the leading lines in
UTF-8, and nothing any more after them.  A byte of the value of a line feed
stands for a line feed and is no part of any other character, so that the lines
of a text in UTF-8 are in UTF-8 themselves.  Reading the bytes of a text is
therefore reading the text.
-/

namespace Stylesheet

/-- What an input answers when it has been asked `count` times before. -/
def answer {Input : Type} (next : Input → Option Char × Input) : Input →
    (count : Nat) → Option Char
  | input, 0 => (next input).1
  | input, count + 1 => answer next (next input).2 count

/-- If an input always gives the first of the characters that it holds and keeps
the others, then it answers with what it holds, and with nothing after that. -/
theorem answer_eq_getElem? {Input : Type} {next : Input → Option Char × Input}
    {held : Input → Text}
    (gives : ∀ input, (next input).1 = (held input).head? ∧
      held (next input).2 = (held input).tail) (input : Input) (count : Nat) :
    answer next input count = (held input)[count]? := by
  induction count generalizing input with
  | zero => rw [answer, (gives input).1, List.head?_eq_getElem?]
  | succ count ih => rw [answer, ih, (gives input).2, List.getElem?_tail]

namespace TextInput

private theorem answer_ofText (text : Text) (count : Nat) :
    answer next (ofText text) count = text[count]? := by
  rw [answer_eq_getElem? next_rest, rest_ofText]

end TextInput

namespace LineInput

variable {input : LineInput} {bytes : List UInt8} {queue : Text} {ended : Bool}

/-- The most characters that are still to come. -/
def size (input : LineInput) : Nat :=
  input.bytes.length + input.queue.length

private theorem length_le_of_decode? {line : List UInt8} {text : Text}
    (decoded : FileTree.decode? line.toByteArray = some text) :
    text.length ≤ line.length := by
  rw [FileTree.decode?_eq_some, List.utf8Encode, List.toByteArray_inj]
    at decoded
  subst decoded
  induction text with
  | nil => exact Nat.le_refl 0
  | cons c rest ih =>
      have positive := c.utf8Size_pos
      rw [List.flatMap_cons, List.length_append, String.length_utf8EncodeChar,
        List.length_cons]
      omega

theorem size_fill (input : LineInput) : input.fill.size ≤ input.size := by
  unfold fill
  split
  · exact Nat.le_refl _
  · rename_i line bytes split
    have lengths := congrArg List.length (firstLine?_append split).2
    rw [List.length_append] at lengths
    split
    · rename_i text decoded
      have shorter := length_le_of_decode? decoded
      simp only [size, List.length_append]
      omega
    · simp only [size]
      omega

private theorem size_refill (input : LineInput) :
    input.refill.size ≤ input.size := by
  fun_induction refill input with
  | case1 input waiting ih => exact Nat.le_trans ih (size_fill input)
  | case2 input ready => exact Nat.le_refl _

theorem size_next {later : LineInput} {c : Char}
    (asked : input.next = (some c, later)) : later.size < input.size := by
  have smaller := size_refill input
  unfold next at asked
  split at asked
  · rename_i bytes d queue ended waiting
    cases asked
    rw [waiting] at smaller
    simp only [size, List.length_cons] at smaller ⊢
    omega
  · cases asked

/-- All characters that are still to come. -/
def rest (input : LineInput) : Text :=
  match _asked : input.next with
  | (some c, later) => c :: later.rest
  | (none, _) => []
termination_by input.size
decreasing_by exact size_next _asked

private theorem length_rest (input : LineInput) :
    input.rest.length ≤ input.size := by
  fun_induction rest input with
  | case1 input c later asked ih =>
      exact Nat.lt_of_le_of_lt ih (size_next asked)
  | case2 => exact Nat.zero_le _

theorem rest_of_next {later : LineInput} {c : Char}
    (asked : input.next = (some c, later)) :
    input.rest = c :: later.rest := by
  rw [rest]
  split
  · rename_i same
    cases asked.symm.trans same
    rfl
  · rename_i same
    cases asked.symm.trans same

theorem rest_of_next_none {later : LineInput}
    (asked : input.next = (none, later)) :
    input.rest = [] := by
  rw [rest]
  split
  · rename_i same
    cases asked.symm.trans same
  · rfl

private theorem refill_of_queue {c : Char} :
    refill ⟨bytes, c :: queue, ended⟩ = ⟨bytes, c :: queue, ended⟩ := by
  rw [refill]
  rfl

private theorem refill_of_ended :
    refill ⟨bytes, queue, true⟩ = ⟨bytes, queue, true⟩ := by
  rw [refill]
  simp

theorem rest_cons {c : Char} :
    rest ⟨bytes, c :: queue, ended⟩ = c :: rest ⟨bytes, queue, ended⟩ := by
  apply rest_of_next
  rw [next, refill_of_queue]

theorem rest_append (text : Text) :
    rest ⟨bytes, text ++ queue, ended⟩ =
      text ++ rest ⟨bytes, queue, ended⟩ := by
  induction text with
  | nil => rfl
  | cons c text ih => rw [List.cons_append, rest_cons, ih, List.cons_append]

theorem rest_ended : rest ⟨bytes, [], true⟩ = [] := by
  apply rest_of_next_none
  rw [next, refill_of_ended]

theorem rest_fill :
    rest ⟨bytes, [], false⟩ = (fill ⟨bytes, [], false⟩).rest := by
  have same : next ⟨bytes, [], false⟩ = (fill ⟨bytes, [], false⟩).next := by
    rw [next, refill]
    rfl
  rw [rest, rest, same]

/-- An input in want of characters has ended. -/
theorem refill_of_empty (input : LineInput) (empty : input.refill.queue = []) :
    input.refill.ended = true := by
  fun_induction refill input with
  | case1 input waiting ih => exact ih empty
  | case2 input ready =>
      rw [empty] at ready
      simpa using ready

theorem next_rest (input : LineInput) :
    input.next.1 = input.rest.head? ∧ input.next.2.rest = input.rest.tail := by
  rcases asked : input.next with ⟨_ | c, later⟩
  · have empty : later.queue = [] ∧ later.ended = true := by
      unfold next at asked
      split at asked
      · cases asked
      · rename_i nothing
        cases asked
        have queue : input.refill.queue = [] := by
          rcases filled : input.refill with ⟨bytes, _ | ⟨c, queue⟩, ended⟩
          · rfl
          · exact absurd filled (nothing bytes c queue ended)
        exact ⟨queue, refill_of_empty input queue⟩
    obtain ⟨bytes, queue, ended⟩ := later
    obtain ⟨rfl, rfl⟩ := empty
    rw [rest_of_next_none asked, rest_ended]
    exact ⟨rfl, rfl⟩
  · rw [rest_of_next asked]
    exact ⟨rfl, rfl⟩

theorem answer_rest (input : LineInput) (count : Nat) :
    answer next input count = input.rest[count]? :=
  answer_eq_getElem? next_rest input count

/-- The bytes are asked often enough. -/
theorem characters_ofBytes (bytes : ByteArray) :
    characters next bytes.size (ofBytes bytes) = (ofBytes bytes).rest :=
  characters_eq next_rest (length_rest (ofBytes bytes))

end LineInput

theorem Compilation.processBytes_eq (environment : Environment) (fuel : Nat)
    (compilation : Compilation) (bytes : ByteArray) (file : Option Text) :
    compilation.processBytes environment fuel bytes file =
      compilation.process environment fuel
        (LineInput.ofBytes bytes).rest file := by
  unfold processBytes process processInput
  rw [LineInput.characters_ofBytes, TextInput.characters_ofText]

/-- Lines that each end with a line feed and hold no other one; the last line
may be without. -/
inductive AreLines : List (List UInt8) → Prop where
  | nil : AreLines []
  | last {line : List UInt8} : line ≠ [] → 10 ∉ line → AreLines [line]
  | cons {line : List UInt8} {lines : List (List UInt8)} :
      10 ∉ line → AreLines lines → AreLines ((line ++ [10]) :: lines)

/-- The line is the encoding of a text. -/
def InUtf8 (line : List UInt8) : Prop :=
  line.toByteArray.IsValidUTF8

private theorem exists_lines (bytes : List UInt8) :
    ∃ lines, AreLines lines ∧ lines.flatten = bytes := by
  induction bytes with
  | nil => exact ⟨[], .nil, rfl⟩
  | cons byte rest ih =>
      obtain ⟨lines, areLines, rfl⟩ := ih
      by_cases feed : byte = 10
      · exact ⟨([] ++ [10]) :: lines, .cons List.not_mem_nil areLines,
          by simp [feed]⟩
      · have fresh {line : List UInt8} (absent : 10 ∉ line) :
            10 ∉ byte :: line := by
          simp [absent, Ne.symm feed]
        cases areLines with
        | nil => exact ⟨[[byte]], .last (by simp) (fresh List.not_mem_nil), rfl⟩
        | @last line _ absent =>
            exact ⟨[byte :: line], .last (by simp) (fresh absent), rfl⟩
        | @cons line lines absent others =>
            exact ⟨(byte :: line ++ [10]) :: lines,
              .cons (fresh absent) others, rfl⟩

/-- A first line ends with the first line feed, or else it is all there is. -/
theorem firstLine?_cases {bytes line others : List UInt8}
    (split : firstLine? bytes = some (line, others)) :
    (∃ front, line = front ++ [10] ∧ 10 ∉ front) ∨
      (others = [] ∧ 10 ∉ line) := by
  fun_induction firstLine? bytes generalizing line others with
  | case1 => contradiction
  | case2 byte rest feed =>
      cases split
      exact .inl ⟨[], by simpa using feed, List.not_mem_nil⟩
  | case3 byte rest plain last ih =>
      cases split
      have differs : byte ≠ 10 := by simpa using plain
      exact .inr ⟨rfl, by simp [differs.symm]⟩
  | case4 byte rest plain line others found ih =>
      cases split
      have differs : byte ≠ 10 := by simpa using plain
      rcases ih found with ⟨front, rfl, absent⟩ | ⟨ended, absent⟩
      · exact .inl ⟨byte :: front, rfl, by simp [differs.symm, absent]⟩
      · exact .inr ⟨ended, by simp [differs.symm, absent]⟩

/-- The text of the longest run of leading lines in UTF-8. -/
structure LeadingText (bytes : List UInt8) (leading others : List (List UInt8))
    (text : Text) :
    Prop where
  lines : AreLines (leading ++ others)
  whole : (leading ++ others).flatten = bytes
  encoded : ∀ line ∈ leading, InUtf8 line
  stops : ∀ line, others.head? = some line → ¬ InUtf8 line
  bytes_eq : text.flatMap String.utf8EncodeChar = leading.flatten

theorem inUtf8_iff {line : List UInt8} :
    InUtf8 line ↔ ∃ text : Text, line = text.flatMap String.utf8EncodeChar := by
  constructor
  · rintro ⟨text, same⟩
    exact ⟨text, List.toByteArray_inj.mp same⟩
  · rintro ⟨text, rfl⟩
    exact ⟨text, rfl⟩

theorem decode?_toByteArray {line : List UInt8} {text : Text} :
    FileTree.decode? line.toByteArray = some text ↔
      line = text.flatMap String.utf8EncodeChar := by
  rw [FileTree.decode?_eq_some, List.utf8Encode, List.toByteArray_inj]

private theorem not_inUtf8_of_decode? {line : List UInt8}
    (refused : FileTree.decode? line.toByteArray = none) : ¬ InUtf8 line := by
  intro valid
  obtain ⟨text, same⟩ := inUtf8_iff.mp valid
  rw [decode?_toByteArray.mpr same] at refused
  contradiction

section FirstLine

variable {bytes line behind : List UInt8} {leading others : List (List UInt8)}
  {text later : Text}

theorem AreLines.of_firstLine? {lines : List (List UInt8)}
    (split : firstLine? bytes = some (line, lines.flatten))
    (areLines : AreLines lines) :
    AreLines (line :: lines) := by
  rcases firstLine?_cases split with ⟨front, rfl, absent⟩ | ⟨ended, absent⟩
  · exact .cons absent areLines
  · cases areLines with
    | nil => exact .last (firstLine?_append split).1 absent
    | last filled _ => simp [filled] at ended
    | cons _ _ => simp at ended

theorem LeadingText.cons (split : firstLine? bytes = some (line, behind))
    (decoded : FileTree.decode? line.toByteArray = some text)
    (read : LeadingText behind leading others later) :
    LeadingText bytes (line :: leading) others (text ++ later) := by
  have same := decode?_toByteArray.mp decoded
  rw [← read.whole] at split
  constructor
  · exact read.lines.of_firstLine? split
  · exact (firstLine?_append split).2
  · intro other member
    rcases List.mem_cons.mp member with rfl | further
    · exact inUtf8_iff.mpr ⟨text, same⟩
    · exact read.encoded other further
  · exact read.stops
  · rw [List.flatMap_append, read.bytes_eq, ← same, List.flatten_cons]

private theorem leadingText_refused
    (split : firstLine? bytes = some (line, behind))
    (refused : FileTree.decode? line.toByteArray = none) :
    ∃ lines, LeadingText bytes [] lines [] := by
  obtain ⟨lines, areLines, rfl⟩ := exists_lines behind
  refine ⟨line :: lines, ?_⟩
  constructor
  · exact areLines.of_firstLine? split
  · exact (firstLine?_append split).2
  · simp
  · rintro other ⟨rfl⟩
    exact not_inUtf8_of_decode? refused
  · rfl

end FirstLine

private theorem leadingText_nil : LeadingText [] [] [] [] := by
  constructor
  · exact .nil
  · rfl
  · simp
  · simp
  · rfl

namespace LineInput

theorem rest_nothing : rest ⟨[], [], false⟩ = [] := by
  rw [rest_fill]
  exact rest_ended

theorem rest_refused {bytes line behind : List UInt8}
    (split : firstLine? bytes = some (line, behind))
    (refused : FileTree.decode? line.toByteArray = none) :
    rest ⟨bytes, [], false⟩ = [] := by
  rw [rest_fill]
  simp only [fill, split, refused]
  exact rest_ended

theorem rest_line {bytes line behind : List UInt8} {text : Text}
    (split : firstLine? bytes = some (line, behind))
    (decoded : FileTree.decode? line.toByteArray = some text) :
    rest ⟨bytes, [], false⟩ = text ++ rest ⟨behind, [], false⟩ := by
  rw [rest_fill, ← rest_append]
  simp only [fill, split, decoded, List.nil_append, List.append_nil]

/-- By induction over the lines: each one in UTF-8 is read, and the first other
one ends the input. -/
theorem leadingText_rest (bytes : List UInt8) :
    ∃ leading others,
      LeadingText bytes leading others (rest ⟨bytes, [], false⟩) := by
  induction length : bytes.length using Nat.strongRecOn generalizing bytes with
  | ind count ih =>
      cases split : firstLine? bytes with
      | none =>
          obtain rfl := firstLine?_eq_none.mp split
          rw [rest_nothing]
          exact ⟨[], [], leadingText_nil⟩
      | some found =>
          obtain ⟨line, behind⟩ := found
          cases decoded : FileTree.decode? line.toByteArray with
          | none =>
              rw [rest_refused split decoded]
              exact ⟨[], leadingText_refused split decoded⟩
          | some text =>
              have shorter : behind.length < count := by
                obtain ⟨filled, rfl⟩ := firstLine?_append split
                have positive := List.length_pos_iff.mpr filled
                rw [List.length_append] at length
                omega
              obtain ⟨leading, others, read⟩ := ih _ shorter behind rfl
              rw [rest_line split decoded]
              exact ⟨line :: leading, others, read.cons split decoded⟩

end LineInput

/-- Only the line feed has a byte of its value. -/
theorem feed_not_mem_utf8EncodeChar {c : Char} (other : c ≠ '\n') :
    10 ∉ String.utf8EncodeChar c := by
  have differs : c.val.toNat ≠ 10 := by
    intro same
    exact other (Char.ext (UInt32.toNat_inj.mp same))
  have byte (value : Nat) (small : value < 256) (unlike : value ≠ 10) :
      10 ≠ UInt8.ofNat value := by
    intro same
    have values := congrArg UInt8.toNat same
    rw [UInt8.toNat_ofNat_of_lt' small] at values
    exact unlike values.symm
  -- All bytes of a longer encoding are 128 or more.
  rw [String.utf8EncodeChar]
  repeat' split
  all_goals
    simp only [List.mem_cons, List.not_mem_nil, or_false, not_or]
    repeat' constructor
    all_goals exact byte _ (by omega) (by omega)

/-- A line feed among the bytes of a text is one of its characters. -/
theorem split_at_feed {text : Text} {front behind : List UInt8}
    (absent : 10 ∉ front)
    (split : text.flatMap String.utf8EncodeChar = front ++ 10 :: behind) :
    ∃ first second : Text, front = first.flatMap String.utf8EncodeChar ∧
      behind = second.flatMap String.utf8EncodeChar := by
  induction text generalizing front with
  | nil => simp at split
  | cons c rest ih =>
      rw [List.flatMap_cons] at split
      by_cases feed : c = '\n'
      · subst feed
        cases front with
        | nil => exact ⟨[], rest, rfl, (List.cons.inj split).2.symm⟩
        | cons byte front =>
            have same : 10 = byte := (List.cons.inj split).1
            simp [same] at absent
      · -- The bytes of the character have no line feed, so they all come
        -- before it.
        have clear := feed_not_mem_utf8EncodeChar feed
        obtain ⟨more, rfl⟩ : ∃ more,
            front = String.utf8EncodeChar c ++ more := by
          rcases List.append_eq_append_iff.mp split with ⟨more, same, _⟩
            | ⟨more, same, right⟩
          · exact ⟨more, same⟩
          · cases more with
            | nil => exact ⟨[], by rw [same, List.append_nil, List.append_nil]⟩
            | cons byte more =>
                have equal : 10 = byte := (List.cons.inj right).1
                simp [same, equal] at clear
        rw [List.append_assoc] at split
        rw [List.mem_append, not_or] at absent
        obtain ⟨first, second, rfl, rfl⟩ :=
          ih absent.2 (List.append_cancel_left split)
        exact ⟨c :: first, second, rfl, rfl⟩

private theorem AreLines.inUtf8 {lines : List (List UInt8)} {text : Text}
    (areLines : AreLines lines)
    (whole : lines.flatten = text.flatMap String.utf8EncodeChar) :
    ∀ line ∈ lines, InUtf8 line := by
  induction areLines generalizing text with
  | nil => simp
  | @last line _ _ =>
      rw [List.flatten_singleton] at whole
      simpa using inUtf8_iff.mpr ⟨text, whole⟩
  | @cons line lines absent _ ih =>
      rw [List.flatten_cons, List.append_assoc, List.singleton_append] at whole
      obtain ⟨first, second, rfl, behind⟩ := split_at_feed absent whole.symm
      intro other member
      rcases List.mem_cons.mp member with rfl | further
      · exact inUtf8_iff.mpr ⟨first ++ ['\n'], by rw [List.flatMap_append]; rfl⟩
      · exact ih behind other further

theorem LineInput.rest_utf8Encode (text : Text) :
    (LineInput.ofBytes text.utf8Encode).rest = text := by
  obtain ⟨leading, others, read⟩ := leadingText_rest text.utf8Encode.data.toList
  have whole := read.whole
  rw [List.utf8Encode, List.toList_data_toByteArray] at whole
  have none_left : others = [] := by
    cases others with
    | nil => rfl
    | cons line others =>
        have valid := read.lines.inUtf8 whole line (by simp)
        exact absurd valid (read.stops line rfl)
  rw [none_left, List.append_nil, ← read.bytes_eq] at whole
  have once :=
    decode?_toByteArray.mpr (Eq.refl (text.flatMap String.utf8EncodeChar))
  have again := decode?_toByteArray.mpr whole.symm
  exact Option.some.inj (again.symm.trans once)

/-- Bytes give the text of their leading lines in UTF-8 and then end for good,
and it is this text that is compiled.  The bytes of a text give that text, just
as reading it does. -/
theorem line_input_reads_text :
    (∀ bytes : ByteArray, ∃ (leading others : List (List UInt8)) (text : Text),
      LeadingText bytes.data.toList leading others text ∧
        (∀ count, answer LineInput.next (.ofBytes bytes) count = text[count]?) ∧
        ∀ (environment : Environment) (fuel : Nat) (compilation : Compilation)
          (file : Option Text),
          compilation.processBytes environment fuel bytes file =
            compilation.process environment fuel text file) ∧
      ∀ text : Text,
        (∀ count, answer LineInput.next (.ofBytes text.utf8Encode) count =
          answer TextInput.next (.ofText text) count) ∧
        ∀ (environment : Environment) (fuel : Nat) (compilation : Compilation)
          (file : Option Text),
          compilation.processBytes environment fuel text.utf8Encode file =
            compilation.process environment fuel text file := by
  constructor
  · intro bytes
    obtain ⟨leading, others, read⟩ :=
      LineInput.leadingText_rest bytes.data.toList
    refine ⟨leading, others, _, read, LineInput.answer_rest _, ?_⟩
    intro environment fuel compilation file
    exact Compilation.processBytes_eq environment fuel compilation bytes file
  · intro text
    constructor
    · intro count
      rw [LineInput.answer_rest, LineInput.rest_utf8Encode,
        TextInput.answer_ofText]
    · intro environment fuel compilation file
      rw [Compilation.processBytes_eq, LineInput.rest_utf8Encode]

end Stylesheet
