import Stylesheet.Decimal.Binary

/-!
# Shortest decimals

Every real number that is nearer to a given floating-point number than to its
neighbours reads back as that number.  Among the decimals that read back, one
with the fewest digits is chosen, and of these the nearest.
-/

namespace Stylesheet.Decimal

/-- The number `digits * 10 ^ exponent`. -/
structure Scaled where
  digits : Nat
  exponent : Int
  deriving DecidableEq, Repr

/-- Compares multiples of `10 ^ exponent` with multiples of a quarter of the
unit of `number`: both are turned into whole numbers by these two factors. -/
def gridFactors (number : Binary) (exponent : Int) : Nat × Nat :=
  (Nat.pow 10 exponent.toNat * Nat.pow 2 (2 - number.exponent).toNat,
    Nat.pow 2 (number.exponent - 2).toNat * Nat.pow 10 (-exponent).toNat)

/-- The multiple of `10 ^ exponent` nearest to `number` among those that read
back as `number`. -/
def nearestOnGrid? (number : Binary) (exponent : Int) : Option Nat :=
  let (grid, unit) := gridFactors number exponent
  let value := 4 * number.significand * unit
  let low := (4 * number.significand - if number.narrow then 1 else 2) * unit
  let high := (4 * number.significand + 2) * unit
  let readsBack (digits : Nat) : Bool :=
    if number.significand % 2 == 0 then
      low ≤ digits * grid && digits * grid ≤ high
    else low < digits * grid && digits * grid < high
  let below := value / grid
  let above := below + 1
  if readsBack below &&
    (!readsBack above || value - below * grid < above * grid - value) then
    some below
  else if readsBack above then some above
  else none

/-- Looks for the coarsest decimal grid with a number that reads back. -/
def coarsest (number : Binary) : Nat → Int → Scaled
  | 0, exponent => ⟨number.significand, exponent⟩
  | fuel + 1, exponent =>
      match nearestOnGrid? number exponent with
      | some digits => ⟨digits, exponent⟩
      | none => coarsest number fuel (exponent - 1)

/-- The shortest decimal that reads back as a number other than zero.  The
search starts above the number's leading digit; twenty-four grids reach past
the seventeen digits that are always enough. -/
def shortest (number : Binary) : Scaled :=
  let magnitude : Int := number.significand.log2 + number.exponent
  coarsest number 24 (Int.fdiv ((magnitude + 2) * 30103) 100000 + 2)

/-- Digits with a point where the exponent puts it, and never an exponent. -/
def positional (digits : Text) (exponent : Int) : Text :=
  if 0 ≤ exponent then digits ++ List.replicate exponent.toNat '0'
  else
    let places := exponent.natAbs
    if places < digits.length then
      digits.take (digits.length - places) ++ '.' ::
        digits.drop (digits.length - places)
    else ['0', '.'] ++ List.replicate (places - digits.length) '0' ++ digits

def signed (negative : Bool) (text : Text) : Text :=
  if negative then '-' :: text else text

/-- The shortest positional text of a double; a zero keeps its sign. -/
def plain (value : Float) : Text :=
  match ofDouble value with
  | .nan => "NaN".toList
  | .infinite negative => signed negative "inf".toList
  | .finite negative number =>
      signed negative <|
        if number.significand == 0 then ['0']
        else
          let decimal := shortest number
          positional (Text.ofNat decimal.digits) decimal.exponent

/-- Numbers as they stand in a stylesheet: both zeros are written `0`. -/
def number (value : Float) : Text :=
  if value == 0.0 then ['0'] else plain value

end Stylesheet.Decimal
