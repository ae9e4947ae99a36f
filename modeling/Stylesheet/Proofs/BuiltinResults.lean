import Stylesheet.Function.Call

/-!
# Results of builtin functions

A builtin function returns a number, a colour or a call of one of two native
functions.  All of these are written with letters, digits and a few signs, and
the only parentheses are those of the native call at the end.
-/

namespace Stylesheet

/-- The characters of numbers, colours and the names around them. -/
def isFigure (c : Char) : Bool :=
  c.isAlphanum || c == '#' || c == '-' || c == '.' || c == ',' || c ==
    '=' || c == ':'

/-- A text of figures only. -/
def Figures (text : Text) : Prop :=
  ∀ c ∈ text, isFigure c = true

instance (text : Text) : Decidable (Figures text) :=
  List.decidableBAll _ text

theorem figures_append {first second : Text} :
    Figures (first ++ second) ↔ Figures first ∧ Figures second := by
  simp only [Figures, List.mem_append]
  constructor
  · intro figures
    exact ⟨fun c member => figures c (.inl member),
      fun c member => figures c (.inr member)⟩
  · rintro ⟨left, right⟩ c (member | member)
    · exact left c member
    · exact right c member

theorem figures_cons {c : Char} {text : Text} :
    Figures (c :: text) ↔ isFigure c = true ∧ Figures text := by
  simp [Figures]

theorem figures_replicate {c : Char} (figure : isFigure c = true)
    (count : Nat) :
    Figures (List.replicate count c) := by
  intro other member
  rw [List.eq_of_mem_replicate member]
  exact figure

theorem Figures.not_mem {text : Text} (figures : Figures text) {c : Char}
    (other : isFigure c = false) : c ∉ text := by
  intro member
  rw [figures c member] at other
  contradiction

/-- Figures are neither quotes nor parentheses. -/
theorem Figures.plain {text : Text} (figures : Figures text) :
    ∀ c ∈ text, isQuote c = false ∧ c ≠ '(' ∧ c ≠ ')' := by
  intro c member
  have differs {other : Char} (marked : isFigure other = false) :
      c ≠ other := by
    rintro rfl
    exact figures.not_mem marked member
  refine ⟨?_, differs (by decide), differs (by decide)⟩
  rw [isQuote, Bool.or_eq_false_iff, beq_eq_false_iff_ne, beq_eq_false_iff_ne]
  exact ⟨differs (by decide), differs (by decide)⟩

private theorem isFigure_digitChar {digit : Nat} (small : digit < 16) :
    isFigure (Nat.digitChar digit) = true := by
  have every : ∀ digit < 16, isFigure (Nat.digitChar digit) = true := by decide
  exact every digit small

theorem exists_digitChar {base : Nat} (proper : 1 < base)
    {value : Nat} {c : Char} (member : c ∈ Nat.toDigits base value) :
    ∃ digit < base, c = Nat.digitChar digit := by
  induction value using Nat.strongRecOn with
  | ind value ih =>
      rcases Nat.lt_or_ge value base with small | large
      · rw [Nat.toDigits_of_lt_base small, List.mem_singleton] at member
        exact ⟨value, small, member⟩
      · rw [Nat.toDigits_of_base_le proper large, List.mem_append,
          List.mem_singleton] at member
        rcases member with front | last
        · exact ih _ (Nat.div_lt_self (by omega) proper) front
        · exact ⟨value % base, Nat.mod_lt value (by omega), last⟩

theorem figures_toDigits {base : Nat} (proper : 1 < base) (known : base ≤ 16)
    (value : Nat) :
    Figures (Nat.toDigits base value) := by
  intro c member
  obtain ⟨digit, small, rfl⟩ := exists_digitChar proper member
  exact isFigure_digitChar (Nat.lt_of_lt_of_le small known)

namespace Decimal

theorem figures_positional {digits : Text} (figures : Figures digits)
    (exponent : Int) :
    Figures (positional digits exponent) := by
  have zeros := figures_replicate (by decide : isFigure '0' = true)
  unfold positional
  split
  · exact figures_append.mpr ⟨figures, zeros _⟩
  · dsimp only
    split
    · rw [figures_append, figures_cons]
      refine ⟨?_, by decide, ?_⟩
      · intro c member
        exact figures c (List.mem_of_mem_take member)
      · intro c member
        exact figures c (List.mem_of_mem_drop member)
    · rw [figures_append, figures_append]
      exact ⟨⟨by decide, zeros _⟩, figures⟩

theorem figures_signed (negative : Bool) {text : Text}
    (figures : Figures text) :
    Figures (signed negative text) := by
  unfold signed
  split
  · exact figures_cons.mpr ⟨by decide, figures⟩
  · exact figures

theorem figures_plain (value : Float) : Figures (plain value) := by
  unfold plain
  split
  · decide
  · exact figures_signed _ (by decide)
  · apply figures_signed
    split
    · decide
    · exact figures_positional (figures_toDigits (by decide) (by decide) _) _

theorem figures_number (value : Float) : Figures (number value) := by
  unfold number
  split
  · decide
  · exact figures_plain value

end Decimal

namespace Color

/-- The bytes of a text tell that it has only letters in lower case. -/
theorem isLower_of_bytes {name : String}
    (bytes : name.toByteArray.data.toList.all
      (fun byte => 97 ≤ byte.toNat && byte.toNat ≤ 122) = true) :
    ∀ c ∈ name.toList, c.isLower = true := by
  have encoded : name.toByteArray.data.toList =
      name.toList.flatMap String.utf8EncodeChar := by
    rw [← String.utf8Encode_toList, List.utf8Encode,
      List.toList_data_toByteArray]
  intro c member
  have small : ∀ byte ∈ String.utf8EncodeChar c, 97 ≤ byte.toNat ∧
      byte.toNat ≤ 122 := by
    intro byte inside
    have known := List.all_eq_true.mp bytes byte
      (encoded ▸ List.mem_flatMap.mpr ⟨c, member, inside⟩)
    simpa using known
  -- A character with more than one byte starts with a byte above 191.
  rw [String.utf8EncodeChar] at small
  by_cases ascii : c.val.toNat ≤ 127
  · rw [if_pos ascii] at small
    have known := small _ List.mem_cons_self
    rw [UInt8.toNat_ofNat'] at known
    have code : 97 ≤ c.val ∧ c.val ≤ 122 := by
      rw [UInt32.le_iff_toNat_le, UInt32.le_iff_toNat_le]
      change 97 ≤ c.val.toNat ∧ c.val.toNat ≤ 122
      omega
    exact Bool.and_eq_true_iff.mpr
      ⟨decide_eq_true code.1, decide_eq_true code.2⟩
  · rw [if_neg ascii] at small
    repeat' split at small
    all_goals
      have known := small _ List.mem_cons_self
      rw [UInt8.toNat_ofNat'] at known
      omega

theorem lower_names : ∀ entry ∈ names, ∀ c ∈ entry.1.toList,
    c.isLower = true := by
  have bytes : ∀ entry ∈ names, entry.1.toByteArray.data.toList.all
      (fun byte => 97 ≤ byte.toNat && byte.toNat ≤ 122) = true := by
    decide +kernel
  intro entry member
  exact isLower_of_bytes (bytes entry member)

theorem figures_names : ∀ entry ∈ names, Figures entry.1.toList := by
  intro entry member c letter
  have alpha : c.isAlpha = true :=
    Bool.or_eq_true_iff.mpr (.inr (lower_names entry member c letter))
  simp [isFigure, Char.isAlphanum, alpha]

/-- A name that is written stands in the table with its value. -/
theorem exists_entry {packed : Nat} {name : Text}
    (found : nameOf? packed = some name) :
    ∃ entry ∈ names, entry.2 = packed ∧ entry.1.toList = name := by
  rw [nameOf?, Option.map_eq_some_iff] at found
  obtain ⟨entry, last, rfl⟩ := found
  have listed := List.mem_filter.mp (List.mem_of_getLast? last)
  exact ⟨entry, listed.1, by simpa using listed.2, rfl⟩

theorem figures_packedText (packed : Nat) : Figures (packedText packed) := by
  unfold packedText
  cases found : nameOf? packed with
  | some name =>
      obtain ⟨entry, member, -, rfl⟩ := exists_entry found
      exact figures_names entry member
  | none =>
      dsimp only
      rw [padded, figures_cons, figures_append]
      exact ⟨by decide, figures_replicate (by decide) _,
        figures_toDigits (by decide) (by decide) _⟩

/-- What `rgba()` is called with. -/
def channels (color : Color) : Text :=
  Decimal.plain color.red.round ++ ',' :: Decimal.plain color.green.round ++
    ',' :: Decimal.plain color.blue.round ++
    ',' :: Decimal.number ((color.alpha * 100.0).round / 100.0)

private theorem toRgba_eq (color : Color) :
    color.toRgba = Functions.kept "rgba".toList color.channels := by
  have listed (red green blue alpha : Text) :
      "rgba(".toList ++ red ++ ',' :: green ++ ',' :: blue ++ ',' ::
        alpha ++ [')'] =
        Functions.kept "rgba".toList
          (red ++ ',' :: green ++ ',' :: blue ++ ',' :: alpha) := by
    simp [Functions.kept]
  exact listed _ _ _ _

theorem figures_channels (color : Color) : Figures color.channels := by
  have listed {red green blue alpha : Text} (first : Figures red)
      (second : Figures green) (third : Figures blue) (last : Figures alpha) :
      Figures (red ++ ',' :: green ++ ',' :: blue ++ ',' :: alpha) := by
    simp only [figures_append, figures_cons]
    exact ⟨⟨⟨first, by decide, second⟩, by decide, third⟩, by decide, last⟩
  exact listed (Decimal.figures_plain _) (Decimal.figures_plain _)
    (Decimal.figures_plain _) (Decimal.figures_number _)

end Color

namespace Builtin

/-- What a builtin function can return: figures, or figures and a native call
that does not continue a name in front of it. -/
inductive Result : Text → Prop where
  | figures {value : Text} (figures : Figures value) : Result value
  | call {front name inner : Text} (fronted : Figures front)
      (apart : ∀ c, front.getLast? = some c → isNameChar c = false)
      (named : name = "rgba".toList ∨ name = "Alpha".toList)
        (arguments : Figures inner) :
      Result (front ++ Functions.kept name inner)

/-- A result, if there is one, is of the form it can have. -/
def Yields (returned : Except Error Text) : Prop :=
  ∀ value, returned = .ok value → Result value

theorem Yields.ok {value : Text} (result : Result value) :
    Yields (.ok value) := by
  rintro _ ⟨⟩
  exact result

theorem Yields.error (error : Error) : Yields (.error error) := by
  rintro _ ⟨⟩

theorem Yields.bind {α : Type} {first : Except Error α}
    {next : α → Except Error Text} (each : ∀ value, Yields (next value)) :
    Yields (first >>= next) := by
  cases first with
  | ok value => exact each value
  | error error => exact .error error

theorem yields_rounding (function : Builtin) (operation : Float → Float)
    (value : Text) :
    Yields (function.rounding operation value) := by
  unfold rounding
  dsimp only
  split
  · exact .error _
  · apply Yields.ok
    apply Result.figures
    rw [figures_append]
    refine ⟨Decimal.figures_number _, ?_⟩
    split
    · decide
    · decide

theorem yields_hex (color : Color) : Yields (.ok color.toHex) :=
  .ok (.figures (Color.figures_packedText _))

theorem yields_shift (function : Builtin) (direction : Float)
    (value amount : Text) :
    Yields (function.shift direction value amount) :=
  .bind fun _ => .bind fun _ => yields_hex _

theorem yields_blend (function : Builtin) (background cover amount : Text) :
    Yields (function.blend background cover amount) :=
  .bind fun _ => .bind fun _ => .bind fun _ => yields_hex _

private theorem result_toRgba (color : Color) : Result color.toRgba := by
  rw [color.toRgba_eq, ← List.nil_append (Functions.kept _ _)]
  exact .call (by decide) (by simp) (.inl rfl) color.figures_channels

private theorem result_opacity (value : Float) :
    Result
      ("progid:DXImageTransform.Microsoft.Alpha(Opacity=".toList ++
        Decimal.number value ++
      [')']) := by
  have shape : "progid:DXImageTransform.Microsoft.Alpha(Opacity=".toList ++
      Decimal.number value ++ [')'] =
      "progid:DXImageTransform.Microsoft.".toList ++
        Functions.kept "Alpha".toList
          ("Opacity=".toList ++ Decimal.number value) := by
    simp [Functions.kept]
  rw [shape]
  apply Result.call
  · decide
  · decide
  · exact .inr rfl
  · exact figures_append.mpr ⟨by decide, Decimal.figures_number value⟩

theorem yields_apply (function : Builtin) (arguments : List Text) :
    Yields (function.apply arguments) := by
  unfold apply
  split
  · exact yields_rounding _ _ _
  · exact yields_rounding _ _ _
  · exact yields_rounding _ _ _
  · exact yields_shift _ _ _ _
  · exact yields_shift _ _ _ _
  · exact .bind fun _ => .bind fun _ => .bind fun _ => yields_hex _
  · exact yields_blend _ _ _ _
  · exact yields_blend _ _ _ _
  · exact yields_blend _ _ _ _
  · exact .bind fun _ => .ok (result_opacity _)
  · exact .bind fun _ => .bind fun _ => .ok (result_toRgba _)
  all_goals exact .error _

end Builtin

end Stylesheet
