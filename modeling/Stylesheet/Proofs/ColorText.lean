import Mathlib.Data.List.Induction
import Mathlib.Data.List.Nodup
import Mathlib.Tactic.Convert
import Stylesheet.Proofs.BuiltinResults
import Stylesheet.Proofs.PlainText

/-!
# Reading the text of a colour

The text of a packed value is a name or a hash with six hexadecimal digits.  The
table of names and the digits are read back to the value that was written,
whatever the case of the letters and whatever blanks there are around the text.
-/

namespace Stylesheet

/-- To compare a character with its lower case, only the capital letters
count. -/
theorem toLower_induction {agree : Char → Char → Prop}
    (same : ∀ c, agree c c) (letters : ∀ index < 26,
      agree (Char.ofNat (65 + index)) (Char.ofNat (97 + index)))
    (c : Char) : agree c c.toLower := by
  delta Char.toLower
  split
  · rename_i upper
    simp only [ge_iff_le, UInt32.le_iff_toNat_le] at upper
    have bounds : 65 ≤ c.toNat ∧ c.toNat ≤ 90 := upper
    have letter := letters (c.toNat - 65) (by omega)
    have code : 97 + (c.toNat - 65) = c.toNat + 32 := by omega
    rw [Nat.add_sub_cancel' bounds.1, Char.ofNat_toNat, code, Char.ofNat,
      dif_pos (.inl (by omega))] at letter
    convert letter using 1
    apply Char.ext
    apply UInt32.toNat_inj.mp
    change (c.val + 32).toNat = c.toNat + 32
    rw [UInt32.toNat_add]
    change (c.toNat + 32) % _ = _
    omega
  · exact same c

private theorem eq_of_toLower_eq_hash {c : Char}
    (lower : c.toLower = '#') : c = '#' := by
  have agree :=
    @toLower_induction (fun c lower => lower = '#' → c = '#') (fun c => id)
    (by decide) c
  exact agree lower

private theorem isBlank_toLower (c : Char) : isBlank c.toLower = isBlank c := by
  apply @toLower_induction fun c lower => isBlank lower = isBlank c
  · intro c
    rfl
  · decide

private theorem Text.lower_eq_self {text : Text}
    (small : ∀ c ∈ text, c.isUpper = false) :
    text.lower = text := by
  have kept : ∀ c ∈ text, c.toLower = c := by
    intro c member
    have agree := @toLower_induction
      (fun c lower => c.isUpper = false → lower = c) (fun _ _ => rfl)
      (by decide) c
    exact agree (small c member)
  rw [Text.lower, List.map_congr_left kept, List.map_id']

private theorem visible_of_figure {c : Char} (figure : isFigure c = true) :
    isBlank c = false := by
  simp only [isFigure, Bool.or_eq_true, beq_iff_eq] at figure
  rcases figure with (((((letter | rfl) | rfl) | rfl) | rfl) | rfl) | rfl
  · exact visible_of_ordinary (ordinary_of_isAlphanum letter)
  all_goals decide

/-- A text without blanks is what is left when the blanks around it are taken
away. -/
theorem Text.trim_solid {before text after : Text}
    (blankBefore : ∀ c ∈ before, isBlank c = true)
    (blankAfter : ∀ c ∈ after, isBlank c = true) (filled : text ≠ [])
    (solid : ∀ c ∈ text, isBlank c = false) :
    trim (before ++ text ++ after) = text := by
  have first := List.head?_eq_some_head filled
  have last := List.getLast?_eq_some_getLast filled
  apply trim_around blankBefore blankAfter first _ last
  · exact solid _ (List.getLast_mem filled)
  · exact solid _ (List.head_mem filled)

namespace Token

/-- The value of one hexadecimal digit. -/
def digitValue (c : Char) : Nat :=
  if c.isDigit then c.toNat - '0'.toNat else c.toLower.toNat - 'a'.toNat + 10

theorem hexValue_concat (digits : Text) (c : Char) :
    hexValue (digits ++ [c]) = 16 * hexValue digits + digitValue c := by
  unfold hexValue
  rw [List.foldl_append]
  rfl

private theorem isHexDigit_toLower (c : Char) :
    isHexDigit c.toLower = isHexDigit c := by
  apply @toLower_induction fun c lower => isHexDigit lower = isHexDigit c
  · intro c
    rfl
  · decide

private theorem digitValue_toLower (c : Char) :
    digitValue c.toLower = digitValue c := by
  apply @toLower_induction fun c lower => digitValue lower = digitValue c
  · intro c
    rfl
  · decide

theorem hexValue_lower (digits : Text) :
    hexValue digits.lower = hexValue digits := by
  induction digits using List.reverseRecOn with
  | nil => rfl
  | append_singleton digits c ih =>
      have split : Text.lower (digits ++ [c]) =
          Text.lower digits ++ [c.toLower] := by
        simp [Text.lower]
      rw [split, hexValue_concat, hexValue_concat, ih, digitValue_toLower]

theorem digitValue_digitChar {digit : Nat} (small : digit < 16) :
    digitValue (Nat.digitChar digit) = digit := by
  have every : ∀ digit < 16,
      digitValue (Nat.digitChar digit) = digit := by decide
  exact every digit small

theorem hexValue_toDigits (value : Nat) :
    hexValue (Nat.toDigits 16 value) = value := by
  induction value using Nat.strongRecOn with
  | ind value ih =>
      rcases Nat.lt_or_ge value 16 with small | large
      · rw [Nat.toDigits_of_lt_base small]
        have single := hexValue_concat [] (Nat.digitChar value)
        rw [digitValue_digitChar small] at single
        simpa [hexValue] using single
      · rw [Nat.toDigits_of_base_le (by decide) large, hexValue_concat,
          digitValue_digitChar (Nat.mod_lt _ (by decide)), ih _ (by omega)]
        omega

theorem hexValue_zeros (count : Nat) (digits : Text) :
    hexValue (List.replicate count '0' ++ digits) = hexValue digits := by
  induction count with
  | zero => rfl
  | succ count ih => exact ih

end Token

namespace Color

private theorem find?_of_nodup {α β : Type} [BEq β] [LawfulBEq β] {key : α → β}
    {items : List α} (distinct : (items.map key).Nodup) {item : α}
    (member : item ∈ items) :
    items.find? (fun other => key other == key item) = some item := by
  induction items with
  | nil => contradiction
  | cons other items ih =>
      rw [List.map_cons, List.nodup_cons] at distinct
      rcases List.mem_cons.mp member with rfl | later
      · rw [List.find?_cons_of_pos (by simp)]
      · have differs : key other ≠ key item := by
          intro same
          exact distinct.1 (same ▸ List.mem_map_of_mem later)
        rw [List.find?_cons_of_neg (by simp [differs])]
        exact ih distinct.2 later

/-- The bytes of a name as one number. -/
def nameCode (name : String) : Nat :=
  name.toByteArray.data.toList.foldl
    (fun code byte => 256 * code + byte.toNat) 0

private theorem names_distinct : (names.map (·.1.toList)).Nodup := by
  have codes : (names.map (nameCode ·.1)).Nodup := by decide +kernel
  have factor : names.map (nameCode ·.1) =
      (names.map (·.1.toList)).map (nameCode ∘ String.ofList) := by
    rw [List.map_map]
    apply List.map_congr_left
    intro entry _
    simp
  rw [factor] at codes
  exact codes.of_map

private theorem namedValue?_of_mem {entry : String × Nat}
    (member : entry ∈ names) {text : Text}
    (same : text.lower = entry.1.toList) : namedValue? text = some entry.2 := by
  rw [namedValue?, same, find?_of_nodup names_distinct member]
  rfl

private theorem namedValue?_hash (digits : Text) :
    namedValue? ('#' :: digits) = none := by
  have absent : ∀ entry ∈ names,
      (entry.1.toList == Text.lower ('#' :: digits)) = false := by
    intro entry member
    rw [beq_eq_false_iff_ne]
    intro same
    have letter :=
      lower_names entry member '#' (by rw [same]; exact List.mem_cons_self)
    contradiction
  rw [namedValue?, List.find?_eq_none.mpr
    fun entry member => by simp [absent entry member]]
  rfl

/-- The table has the name with the value, and no later name with the same
value. -/
def LastNamed (packed : Nat) (name : Text) : Prop :=
  ∃ earlier entry later, names = earlier ++ entry :: later ∧
    entry.2 = packed ∧ entry.1.toList = name ∧
    ∀ other ∈ later, other.2 ≠ packed

private theorem lastNamed_of_nameOf? {packed : Nat} {name : Text}
    (found : nameOf? packed = some name) : LastNamed packed name := by
  rw [nameOf?, List.getLast?_filter, Option.map_eq_some_iff] at found
  obtain ⟨entry, first, named⟩ := found
  obtain ⟨valued, later, earlier, split, others⟩ :=
    List.find?_eq_some_iff_append.mp first
  refine ⟨earlier.reverse, entry, later.reverse, ?_, by simpa using valued,
    named, ?_⟩
  · rw [← List.reverse_reverse names, split]
    simp
  · intro other member
    simpa using others other (List.mem_reverse.mp member)

private theorem unnamed_of_nameOf? {packed : Nat}
    (missing : nameOf? packed = none) :
    ∀ entry ∈ names, entry.2 ≠ packed := by
  rw [nameOf?, Option.map_eq_none_iff, List.getLast?_eq_none_iff,
    List.filter_eq_nil_iff] at missing
  intro entry member
  simpa using missing entry member

/-- Hexadecimal digits without the capital letters. -/
def isLowerHex (c : Char) : Bool :=
  c.isDigit || ('a' ≤ c && c ≤ 'f')

private theorem not_isUpper_of_isLowerHex {c : Char}
    (lower : isLowerHex c = true) :
    c.isUpper = false := by
  simp only [isLowerHex, Char.isDigit, Char.le_def, Bool.or_eq_true,
    Bool.and_eq_true, decide_eq_true_eq, ge_iff_le, UInt32.le_iff_toNat_le]
    at lower
  delta Char.isUpper
  simp only [decide_eq_false_iff_not, ge_iff_le, UInt32.le_iff_toNat_le]
  have codes : '0'.val.toNat = 48 ∧ '9'.val.toNat = 57 ∧ 'A'.val.toNat = 65 ∧
      'Z'.val.toNat = 90 ∧ 'a'.val.toNat = 97 := by decide
  omega

private theorem isHexDigit_of_isLowerHex {c : Char}
    (lower : isLowerHex c = true) :
    Token.isHexDigit c = true := by
  rw [Token.isHexDigit]
  rw [isLowerHex] at lower
  rw [lower]
  rfl

theorem length_padded {packed : Nat} (small : packed ≤ 0xFFFFFF) :
    (padded 6 (Nat.toDigits 16 packed)).length = 6 := by
  have most : (Nat.toDigits 16 packed).length ≤ 6 := by
    rw [Nat.length_toDigits_le_iff (by decide) (by decide)]
    omega
  rw [padded, List.length_append, List.length_replicate]
  omega

theorem hexValue_padded (width packed : Nat) :
    Token.hexValue (padded width (Nat.toDigits 16 packed)) = packed := by
  rw [padded, Token.hexValue_zeros, Token.hexValue_toDigits]

theorem isLowerHex_padded (width packed : Nat) :
    ∀ d ∈ padded width (Nat.toDigits 16 packed), isLowerHex d = true := by
  have every : ∀ digit < 16,
      isLowerHex (Nat.digitChar digit) = true := by decide
  intro d member
  rcases List.mem_append.mp member with zero | written
  · rw [List.eq_of_mem_replicate zero]
    rfl
  · obtain ⟨digit, small, rfl⟩ := exists_digitChar (by decide) written
    exact every digit small

private theorem hexValue?_six {digits : Text} (six : digits.length = 6)
    (hex : ∀ d ∈ digits, Token.isHexDigit d = true) :
    hexValue? digits = some (Token.hexValue digits) := by
  have all := List.all_eq_true.mpr hex
  match digits, six with
  | [_, _, _, _, _, _], _ => rw [hexValue?, if_pos all]

section ReadsBack

variable {packed : Nat} {text : Text}

theorem packedText_of_name {name : Text} (found : nameOf? packed = some name) :
    packedText packed = name := by
  rw [packedText, found]

theorem packedText_of_none (nameless : nameOf? packed = none) :
    packedText packed = '#' :: padded 6 (Nat.toDigits 16 packed) := by
  rw [packedText, nameless]

theorem packedText_ne_nil (packed : Nat) : packedText packed ≠ [] := by
  cases found : nameOf? packed with
  | some name =>
      obtain ⟨entry, member, -, rfl⟩ := exists_entry found
      have filled : ∀ entry ∈ names, entry.1 ≠ "" := by decide +kernel
      rw [packedText_of_name found]
      simpa using filled entry member
  | none => simp [packedText_of_none found]

private theorem lower_packedText (packed : Nat) :
    (packedText packed).lower = packedText packed := by
  apply Text.lower_eq_self
  cases found : nameOf? packed with
  | some name =>
      obtain ⟨entry, member, -, rfl⟩ := exists_entry found
      rw [packedText_of_name found]
      intro c letter
      have lower : c.isLower = true := lower_names entry member c letter
      delta Char.isLower at lower
      delta Char.isUpper
      simp only [Bool.and_eq_true, decide_eq_true_eq, decide_eq_false_iff_not,
        ge_iff_le, UInt32.le_iff_toNat_le] at lower ⊢
      have codes : 'a'.val.toNat = 97 ∧ 'Z'.val.toNat = 90 := by decide
      omega
  | none =>
      rw [packedText_of_none found]
      intro c digit
      rcases List.mem_cons.mp digit with rfl | digit
      · rfl
      · exact not_isUpper_of_isLowerHex (isLowerHex_padded 6 packed c digit)

private theorem namedValue?_written {name : Text}
    (found : nameOf? packed = some name)
    (same : text.lower = packedText packed) :
    namedValue? text = some packed := by
  obtain ⟨entry, member, rfl, rfl⟩ := exists_entry found
  rw [packedText_of_name found] at same
  exact namedValue?_of_mem member same

/-- Without a name, the text is a hash with six digits of the value. -/
theorem hexValue?_written (small : packed ≤ 0xFFFFFF)
    (nameless : nameOf? packed = none) (same : text.lower = packedText packed) :
    ∃ digits, text = '#' :: digits ∧ digits.length = 6 ∧
      hexValue? digits = some packed := by
  rw [packedText_of_none nameless] at same
  obtain ⟨hash, digits, rfl, first, rest⟩ := List.map_eq_cons_iff.mp same
  have six : digits.length = 6 := by
    rw [← length_padded small, ← rest, List.length_map]
  have hex : ∀ d ∈ digits, Token.isHexDigit d = true := by
    intro d member
    have lower : d.toLower ∈ padded 6 (Nat.toDigits 16 packed) :=
      rest ▸ List.mem_map_of_mem member
    rw [← Token.isHexDigit_toLower]
    exact isHexDigit_of_isLowerHex (isLowerHex_padded 6 packed _ lower)
  refine ⟨digits, by rw [eq_of_toLower_eq_hash first], six, ?_⟩
  rw [hexValue?_six six hex, ← Token.hexValue_lower, Text.lower, rest,
    hexValue_padded]

private theorem trim_written {before after : Text}
    (blankBefore : ∀ c ∈ before, isBlank c = true)
    (blankAfter : ∀ c ∈ after, isBlank c = true)
    (same : text.lower = packedText packed) :
    (before ++ text ++ after).trim = text := by
  apply Text.trim_solid blankBefore blankAfter
  · rintro rfl
    exact packedText_ne_nil packed same.symm
  · intro c member
    have lower : c.toLower ∈ packedText packed :=
      same ▸ List.mem_map_of_mem member
    rw [← isBlank_toLower]
    exact visible_of_figure (figures_packedText packed _ lower)

end ReadsBack

/-- A text is read as a packed value by the table of names, or else by its six
digits. -/
def ReadAs (text : Text) (packed : Nat) : Prop :=
  namedValue? text = some packed ∨
    namedValue? text = none ∧ ∃ digits, text = '#' :: digits ∧
      digits.length = 6 ∧
      hexValue? digits = some packed

theorem ReadAs.packedValue? {text : Text} {packed : Nat}
    (read : ReadAs text packed) :
    packedValue? text = some packed := by
  unfold Color.packedValue?
  rcases read with named | ⟨unnamed, digits, rfl, -, value⟩
  · rw [named]
  · rw [unnamed]
    exact value

private theorem readAs_written {packed : Nat} {text : Text}
    (small : packed ≤ 0xFFFFFF) (same : text.lower = packedText packed) :
    ReadAs text packed := by
  cases found : nameOf? packed with
  | some name => exact .inl (namedValue?_written found same)
  | none =>
      obtain ⟨digits, rfl, six, value⟩ := hexValue?_written small found same
      exact .inr ⟨namedValue?_hash digits, digits, rfl, six, value⟩

/-- The text of a packed value is the last of its names, or six digits if it has
none, and it is read back to the value in any letter case and between blanks. -/
theorem packedText_reads_back {packed : Nat} (small : packed ≤ 0xFFFFFF) :
    (nameOf? packed = some (packedText packed) ∧
        LastNamed packed (packedText packed) ∨
      nameOf? packed = none ∧ (∀ entry ∈ names, entry.2 ≠ packed) ∧
        ∃ digits, packedText packed = '#' :: digits ∧
          digits.length = 6 ∧ ∀ d ∈ digits, isLowerHex d = true) ∧
    (∀ color : Color, color.toPacked = packed →
      color.toHex = packedText packed) ∧
    ∀ before text after : Text, (∀ c ∈ before, isBlank c = true) →
      (∀ c ∈ after, isBlank c = true) →
        text.sameLetters (packedText packed) = true →
        ReadAs (before ++ text ++ after).trim packed ∧
        packedValue? (before ++ text ++ after).trim = some packed ∧
        parse (before ++ text ++ after) = .ok (ofPacked packed) := by
  refine ⟨?_, ?_, ?_⟩
  · cases found : nameOf? packed with
    | some name =>
        rw [packedText_of_name found]
        exact .inl ⟨rfl, lastNamed_of_nameOf? found⟩
    | none =>
        rw [packedText_of_none found]
        exact .inr ⟨rfl, unnamed_of_nameOf? found, _, rfl, length_padded small,
          isLowerHex_padded 6 packed⟩
  · rintro color rfl
    rfl
  · intro before text after blankBefore blankAfter letters
    have same : text.lower = packedText packed := by
      rw [← lower_packedText]
      exact eq_of_beq letters
    have read := readAs_written small same
    rw [parse, trim_written blankBefore blankAfter same, read.packedValue?]
    exact ⟨read, rfl, rfl⟩

/-- The value of `cyan` by its name, and a value without a name. -/
theorem packedText_reads_back_samples :
    parse " CyAn\n".toList = .ok (ofPacked 0x00FFFF) ∧
      parse "\t#0a0B0c ".toList = .ok (ofPacked 0x0A0B0C) := by
  constructor
  · have read := @packedText_reads_back 0x00FFFF (by decide)
    exact
      (read.2.2 [' '] "CyAn".toList ['\n'] (by decide) (by decide)
        (by decide +kernel)).2.2
  · have read := @packedText_reads_back 0x0A0B0C (by decide)
    exact
      (read.2.2 ['\t'] "#0a0B0c".toList [' '] (by decide) (by decide)
        (by decide +kernel)).2.2

end Color

end Stylesheet
