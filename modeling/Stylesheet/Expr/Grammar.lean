import Stylesheet.Expr.Lexeme

/-!
# The expression grammar

Binary operators associate to the left within their level; the signs and `not`
bind tighter than all of them.
-/

namespace Stylesheet.Expr

mutual

/-- An expression whose outermost operators have at least the level `least`,
and the symbols after it. -/
def parseBinary : (fuel : Nat) → (least : Nat) → List Symbol →
    Except Fault (Expr × List Symbol)
  | 0, _, _ => .error .unexpectedEnd
  | fuel + 1, least, symbols =>
      match parseUnary fuel symbols with
      | .error fault => .error fault
      | .ok (left, rest) => parseTail fuel least left rest

/-- Continues the operand `left` with the operators that follow it. -/
def parseTail : (fuel : Nat) → (least : Nat) → (left : Expr) → List Symbol →
    Except Fault (Expr × List Symbol)
  | 0, _, _, _ => .error .unexpectedEnd
  | _ + 1, _, _, .not :: _ => .error .unexpectedNot
  | fuel + 1, least, left, .operator operator :: rest =>
      if operator.level < least then .ok (left, .operator operator :: rest)
      else
        match parseBinary fuel (operator.level + 1) rest with
        | .error fault => .error fault
        | .ok (right, rest) =>
            parseTail fuel least (.binary operator left right) rest
  | _ + 1, _, left, symbols => .ok (left, symbols)

/-- A literal, a parenthesised expression, or one of these after signs and
`not`s. -/
def parseUnary : (fuel : Nat) → List Symbol → Except Fault (Expr × List Symbol)
  | 0, _ => .error .unexpectedEnd
  | _ + 1, [] => .error .unexpectedEnd
  | _ + 1, .literal value :: rest => .ok (.literal value, rest)
  | fuel + 1, .not :: rest => do
      let (operand, rest) ← parseUnary fuel rest
      return (.not operand, rest)
  | fuel + 1, .operator .sub :: rest => do
      let (operand, rest) ← parseUnary fuel rest
      return (.negate operand, rest)
  | fuel + 1, .operator .add :: rest => do
      let (operand, rest) ← parseUnary fuel rest
      return (.plus operand, rest)
  | _ + 1, .operator operator :: _ => .error (.unexpectedOperator operator)
  | fuel + 1, .opening :: rest =>
      match parseBinary fuel 0 rest with
      | .error fault => .error fault
      | .ok (inner, .closing :: rest) => .ok (inner, rest)
      | .ok _ => .error .closingExpected
  | _ + 1, .closing :: _ => .error .unexpectedClosing

end

/-- The tree of a list of symbols.  Each symbol costs at most two calls. -/
def ofSymbols (symbols : List Symbol) : Except Fault Expr :=
  if symbols.isEmpty then .error .empty
  else
    match parseBinary (2 * symbols.length + 2) 0 symbols with
    | .error fault => .error fault
    | .ok (tree, []) => .ok tree
    | .ok _ => .error .trailing

/-- The tree of an expression. -/
def parse (text : Text) : Except Fault Expr := do
  ofSymbols (← symbols text)

end Stylesheet.Expr
