import Stylesheet.Expr.Grammar

/-!
# Evaluation

`and` and `or` return one of their operands and leave the second one alone if
the first decides.  Arithmetic takes its operands as numbers; a sum with a text
is a concatenation.
-/

namespace Stylesheet

namespace Value

/-- Nothing, `false`, zero, what is not a number and the empty text are not
true. -/
def isTruthy : Value → Bool
  | .null => false
  | .bool value => value
  | .number value => value != 0.0 && !value.isNaN
  | .text contents => !contents.isEmpty

def toNumber : Value → Except Expr.Fault Float
  | .null => .ok 0.0
  | .bool value => .ok (if value then 1.0 else 0.0)
  | .number value => .ok value
  | .text contents =>
      if contents.trim.isEmpty then .ok 0.0
      else
        match Decimal.read? contents.trim with
        | some value => .ok value
        | none => .error (.notANumber contents)

def render : Value → Text
  | .null => "null".toList
  | .bool true => "true".toList
  | .bool false => "false".toList
  | .number value => Decimal.number value
  | .text contents => contents

/-- Values of different kinds differ. -/
def same : Value → Value → Bool
  | .null, .null => true
  | .bool first, .bool second => first == second
  | .number first, .number second => first == second
  | .text first, .text second => first == second
  | _, _ => false

/-- The order of two numbers, if both are numbers. -/
def compareNumbers (first second : Float) : Option Ordering :=
  if first < second then some .lt
  else if second < first then some .gt
  else if first == second then some .eq
  else none

/-- Two texts are compared by code point, everything else as numbers. -/
def compare : Value → Value → Except Expr.Fault (Option Ordering)
  | .text first, .text second => .ok (some (Text.compare first second))
  | first, second =>
      do return compareNumbers (← first.toNumber) (← second.toNumber)

/-- The sum of numbers, or the concatenation if one operand is a text. -/
def add (first second : Value) : Except Expr.Fault Value :=
  match first, second with
  | .text _, _ | _, .text _ => .ok (.text (first.render ++ second.render))
  | _, _ => do return .number ((← first.toNumber) + (← second.toNumber))

/-- Applies a division; the divisor is looked at first. -/
def divideBy (divide : Float → Float → Float) (first second : Value) :
    Except Expr.Fault Value := do
  let divisor ← second.toNumber
  if divisor == 0.0 then .error .divisionByZero
  return .number (divide (← first.toNumber) divisor)

def orderSatisfies (accept : Ordering → Bool) (first second : Value) :
    Except Expr.Fault Value := do
  return .bool (((← first.compare second).map accept).getD false)

end Value

namespace Operator

/-- The value of an operator on two values. -/
def apply : Operator → Value → Value → Except Expr.Fault Value
  | .or, first, second => .ok (if first.isTruthy then first else second)
  | .and, first, second => .ok (if first.isTruthy then second else first)
  | .eq, first, second => .ok (.bool (first.same second))
  | .ne, first, second => .ok (.bool (!first.same second))
  | .lt, first, second => first.orderSatisfies (· == .lt) second
  | .le, first, second => first.orderSatisfies (· != .gt) second
  | .gt, first, second => first.orderSatisfies (· == .gt) second
  | .ge, first, second => first.orderSatisfies (· != .lt) second
  | .add, first, second => first.add second
  | .sub, first, second =>
      do return .number ((← first.toNumber) - (← second.toNumber))
  | .mul, first, second =>
      do return .number ((← first.toNumber) * (← second.toNumber))
  | .div, first, second => Value.divideBy (· / ·) first second
  | .rem, first, second => Value.divideBy Decimal.remainder first second

end Operator

namespace Expr

def eval : Expr → Except Fault Value
  | .literal value => .ok value
  | .not operand => do return .bool !(← operand.eval).isTruthy
  | .negate operand => do return .number (-(← (← operand.eval).toNumber))
  | .plus operand => do return .number (← (← operand.eval).toNumber)
  | .binary .and left right => do
      let first ← left.eval
      if first.isTruthy then right.eval else return first
  | .binary .or left right => do
      let first ← left.eval
      if first.isTruthy then return first else right.eval
  | .binary operator left right =>
      do operator.apply (← left.eval) (← right.eval)

/-- The value of the expression that a text spells out. -/
def evaluate (text : Text) : Except Fault Value := do
  (← parse text).eval

/-- The truth of a condition. -/
def evaluateCondition (text : Text) : Except Fault Bool := do
  return (← evaluate text).isTruthy

/-- The value of an expression as a number. -/
def evaluateNumber (text : Text) : Except Fault Float := do
  (← evaluate text).toNumber

end Expr

end Stylesheet
