import Stylesheet.Text.Basic

/-!
# Reading decimal numerals

A numeral has an optional sign, digits with an optional point (at least one
digit in all), and an optional exponent with at least one digit.  The words
`inf`, `infinity` and `nan` are read in any letter case, with an optional sign.
The double nearest to the numeral is its value.
-/

namespace Stylesheet.Decimal

/-- The number `coefficient * 10 ^ exponent`. -/
structure Numeral where
  coefficient : Nat
  exponent : Int
  deriving DecidableEq, Repr

def digitValue (c : Char) : Nat :=
  c.toNat - '0'.toNat

/-- The natural number that a run of digits denotes. -/
def digitsValue (digits : Text) : Nat :=
  digits.foldl (fun value c => 10 * value + digitValue c) 0

/-- Splits off the leading digits. -/
def spanDigits (text : Text) : Text × Text :=
  text.span Char.isDigit

/-- The text after `e` in a numeral. -/
def readExponent? (text : Text) : Option Int :=
  let (negative, digits) :=
    match text with
    | '-' :: rest => (true, rest)
    | '+' :: rest => (false, rest)
    | _ => (false, text)
  if digits.isEmpty || !digits.all Char.isDigit then none
  else if negative then some (-(digitsValue digits : Int))
  else some (digitsValue digits)

/-- A numeral without its sign. -/
def Numeral.read? (text : Text) : Option Numeral := do
  let (whole, afterWhole) := spanDigits text
  let (fraction, afterFraction) :=
    match afterWhole with
    | '.' :: rest => spanDigits rest
    | _ => ([], afterWhole)
  if whole.isEmpty && fraction.isEmpty then none
  let exponent ←
    match afterFraction with
    | [] => some 0
    | c :: rest => if c == 'e' || c == 'E' then readExponent? rest else none
  return {
    coefficient := digitsValue (whole ++ fraction)
    exponent := exponent - fraction.length }

def infinity : Float := 1.0 / 0.0

def notANumber : Float := 0.0 / 0.0

/-- The double nearest to a numeral.  A numeral whose leading digit stands
outside every double's range needs no arithmetic. -/
def Numeral.toFloat (numeral : Numeral) : Float :=
  let magnitude := (Text.ofNat numeral.coefficient).length + numeral.exponent
  if numeral.coefficient == 0 then 0.0
  else if magnitude > 400 then infinity
  else if magnitude < -400 then 0.0
  else Float.ofScientific numeral.coefficient (numeral.exponent < 0)
    numeral.exponent.natAbs

/-- A number without its sign. -/
def readUnsigned? (text : Text) : Option Float :=
  let word := String.ofList (Text.lower text)
  if word == "inf" || word == "infinity" then some infinity
  else if word == "nan" then some notANumber
  else (Numeral.read? text).map Numeral.toFloat

/-- The double that a text denotes, if it is a number and nothing else. -/
def read? (text : Text) : Option Float :=
  match text with
  | '-' :: rest => (readUnsigned? rest).map (- ·)
  | '+' :: rest => readUnsigned? rest
  | _ => readUnsigned? text

end Stylesheet.Decimal
