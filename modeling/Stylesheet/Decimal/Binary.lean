import Stylesheet.Text.Basic

/-!
# Binary floating-point numbers, taken apart

A finite number other than zero is a whole number times a power of two.  The
remainder of a division is computed exactly on these parts.
-/

namespace Stylesheet.Decimal

/-- The sizes of the fields of a binary floating-point format. -/
structure BinaryFormat where
  fractionBits : Nat
  exponentBits : Nat

def double : BinaryFormat := ⟨52, 11⟩

def single : BinaryFormat := ⟨23, 8⟩

/-- The positive number `significand * 2 ^ exponent`, or zero.  `narrow` says
that the next smaller number of its format is only half as far away as the next
larger one. -/
structure Binary where
  significand : Nat
  exponent : Int
  narrow : Bool
  deriving DecidableEq, Repr

/-- What a word of a binary format stands for. -/
inductive Decoded where
  | nan
  | infinite (negative : Bool)
  | finite (negative : Bool) (magnitude : Binary)
  deriving DecidableEq, Repr

def BinaryFormat.decode (format : BinaryFormat) (bits : Nat) : Decoded :=
  let fraction := bits % Nat.pow 2 format.fractionBits
  let exponentField :=
    bits / Nat.pow 2 format.fractionBits % Nat.pow 2 format.exponentBits
  let negative :=
    bits / Nat.pow 2 (format.fractionBits + format.exponentBits) % 2 == 1
  let bias : Int :=
    Nat.pow 2 (format.exponentBits - 1) - 1 + format.fractionBits
  if exponentField + 1 == Nat.pow 2 format.exponentBits then
    if fraction == 0 then .infinite negative else .nan
  else if exponentField == 0 then
    .finite negative
      { significand := fraction, exponent := 1 - bias, narrow := false }
  else
    .finite negative {
      significand := Nat.pow 2 format.fractionBits + fraction
      exponent := exponentField - bias
      narrow := fraction == 0 && 1 < exponentField }

def ofDouble (value : Float) : Decoded :=
  double.decode value.toBits.toNat

def ofSingle (value : Float32) : Decoded :=
  single.decode value.toBits.toNat

/-- The significand of a number over a smaller power of two. -/
def Binary.significandAt (number : Binary) (exponent : Int) : Nat :=
  number.significand * Nat.pow 2 (number.exponent - exponent).toNat

/-- The remainder of a division with the sign of the dividend, computed without
rounding.  It is not a number if the dividend is infinite or the divisor
zero. -/
def remainder (dividend divisor : Float) : Float :=
  match ofDouble dividend, ofDouble divisor with
  | .finite negative x, .finite _ y =>
      if y.significand == 0 then 0.0 / 0.0
      else
        let exponent := min x.exponent y.exponent
        let left := x.significandAt exponent % y.significandAt exponent
        let magnitude := (Float.ofNat left).scaleB exponent
        if negative then -magnitude else magnitude
  | .finite .., .infinite _ => dividend
  | _, _ => 0.0 / 0.0

end Stylesheet.Decimal
