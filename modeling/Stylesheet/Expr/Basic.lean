import Stylesheet.Decimal.Numeral
import Stylesheet.Token.Basic

/-!
# Expressions

Conditions and small arithmetic: values, operators with their levels, and the
faults that reading or evaluating an expression can end with.
-/

namespace Stylesheet

/-- What an expression evaluates to. -/
inductive Value where
  | null
  | bool (value : Bool)
  | number (value : Float)
  | text (contents : Text)

/-- The operators that stand between two operands. -/
inductive Operator where
  | or
  | and
  | eq
  | ne
  | lt
  | le
  | gt
  | ge
  | add
  | sub
  | mul
  | div
  | rem
  deriving DecidableEq, Repr

namespace Operator

/-- Operators of a higher level bind tighter. -/
def level : Operator → Nat
  | .or => 1
  | .and => 2
  | .eq | .ne => 3
  | .lt | .le | .gt | .ge => 4
  | .add | .sub => 5
  | .mul | .div | .rem => 6

def name : Operator → Text
  | .or => "Or".toList
  | .and => "And".toList
  | .eq => "Eq".toList
  | .ne => "Ne".toList
  | .lt => "Lt".toList
  | .le => "Le".toList
  | .gt => "Gt".toList
  | .ge => "Ge".toList
  | .add => "Add".toList
  | .sub => "Sub".toList
  | .mul => "Mul".toList
  | .div => "Div".toList
  | .rem => "Rem".toList

end Operator

/-- The tree of an expression; parentheses leave no trace in it. -/
inductive Expr where
  | literal (value : Value)
  | not (operand : Expr)
  | negate (operand : Expr)
  | plus (operand : Expr)
  | binary (operator : Operator) (left right : Expr)

namespace Expr

/-- Why an expression has no value. -/
inductive Fault where
  | unexpectedToken (token : Token)
  | leftover (token : Token)
  | unexpectedChar (c : Char)
  | empty
  | unexpectedNot
  | closingExpected
  | unexpectedOperator (operator : Operator)
  | unexpectedClosing
  | unexpectedEnd
  | trailing
  | notANumber (contents : Text)
  | divisionByZero

def Fault.message : Fault → Text
  | .unexpectedToken token => "unexpected token ".toList ++ token.describe
  | .leftover token =>
      "Basic(UnexpectedToken(".toList ++ token.describe ++ "))".toList
  | .unexpectedChar c => "unexpected '".toList ++ c :: ['\'']
  | .empty => "empty expression".toList
  | .unexpectedNot => "unexpected 'not'".toList
  | .closingExpected => "')' is expected".toList
  | .unexpectedOperator operator =>
      "unexpected operator ".toList ++ operator.name
  | .unexpectedClosing => "unexpected ')'".toList
  | .unexpectedEnd => "unexpected end of expression".toList
  | .trailing => "unexpected trailing input".toList
  | .notANumber contents => '\'' :: contents ++ "' is not a number".toList
  | .divisionByZero => "division by zero".toList

end Expr

end Stylesheet
