import Stylesheet.Color.Basic
import Stylesheet.Expr.Eval

/-!
# Builtin functions

The functions that are computed when a value is resolved: rounding, and
arithmetic on colours.
-/

namespace Stylesheet

inductive Builtin where
  | ceil
  | floor
  | round
  | lighten
  | darken
  | hsb
  | mix
  | mixBlack
  | mixWhite
  | ieGradient
  | transparentize
  deriving DecidableEq, Repr

namespace Builtin

def name : Builtin → Text
  | .ceil => "ceil".toList
  | .floor => "floor".toList
  | .round => "round".toList
  | .lighten => "lighten".toList
  | .darken => "darken".toList
  | .hsb => "hsb".toList
  | .mix => "mix".toList
  | .mixBlack => "mixBlack".toList
  | .mixWhite => "mixWhite".toList
  | .ieGradient => "ieGradient".toList
  | .transparentize => "transparentize".toList

def all : List Builtin :=
  [.ceil, .floor, .round, .lighten, .darken, .hsb, .mix, .mixBlack,
    .mixWhite, .ieGradient, .transparentize]

/-- The builtin function of exactly this name. -/
def ofName? (text : Text) : Option Builtin :=
  all.find? fun function => function.name == text

/-- A number argument; blanks around it are ignored. -/
def number (function : Builtin) (text : Text) : Except Error Float :=
  match Decimal.read? text.trim with
  | some value => .ok value
  | none => .error (.invalidArguments function.name (.notANumber text))

/-- Drops `c` from the end of a text as often as it stands there. -/
def trimEndChar (c : Char) (text : Text) : Text :=
  (text.reverse.dropWhile (· == c)).reverse

/-- A percentage, with or without its sign. -/
def percent (function : Builtin) (text : Text) : Except Error Float :=
  function.number (trimEndChar '%' text.trim)

/-- Drops the unit of degrees, which stands reversed at the front. -/
def dropDegrees : Text → Text
  | 'g' :: 'e' :: 'd' :: rest => dropDegrees rest
  | text => text

def wrongCount {α : Type} (function : Builtin) (expected : Nat)
    (arguments : List Text) :
    Except Error α :=
  .error (.invalidArguments function.name (.count expected arguments.length))

/-- Evaluates the argument without its pixel unit and rounds it; the unit is
put back. -/
def rounding (function : Builtin) (operation : Float → Float) (value : Text) :
    Except Error Text :=
  let unit := "px".toList
  let expression := Text.erase unit value
  match Expr.evaluateNumber expression with
  | .error fault =>
      .error
        (.invalidArguments function.name (.expression expression.trim fault))
  | .ok result =>
      .ok (Decimal.number (operation result) ++
        if Text.occurs unit value then unit else [])

/-- Moves all channels of a colour by a percentage of their range. -/
def shift (function : Builtin) (direction : Float) (value amount : Text) :
    Except Error Text := do
  let color ← Color.parse value
  return (color.add
    (direction * 255.0 * (← function.percent amount) / 100.0)).toHex

/-- Lays the colour `cover` on top of another one. -/
def blend (function : Builtin) (background cover amount : Text) :
    Except Error Text := do
  let background ← Color.parse background
  let cover ← Color.parse cover
  return (background.mixWith cover ((← function.percent amount) / 100.0)).toHex

/-- A share of opacity, as a number or as a percentage. -/
def share (function : Builtin) (amount : Text) : Except Error Float :=
  match ['%'].isSuffixOf? amount.trim with
  | some value => do return (← function.number value) / 100.0
  | none => function.number amount

/-- The result of a call. -/
def apply (function : Builtin) (arguments : List Text) : Except Error Text :=
  match function, arguments with
  | .ceil, [value] => function.rounding Float.ceil value
  | .floor, [value] => function.rounding Float.floor value
  | .round, [value] => function.rounding Float.round value
  | .lighten, [value, amount] => function.shift 1.0 value amount
  | .darken, [value, amount] => function.shift (-1.0) value amount
  | .hsb, [hue, saturation, brightness] => do
      let hue ← function.number (dropDegrees hue.trim.reverse).reverse
      return (Color.ofHsb hue (← function.percent saturation)
        (← function.percent brightness)).toHex
  | .mix, [background, cover, amount] => function.blend background cover amount
  | .mixBlack, [background, amount] =>
      function.blend background "#000000".toList amount
  | .mixWhite, [background, amount] =>
      function.blend background "#ffffff".toList amount
  | .ieGradient, [opacity] => do
      let opacity ← function.number opacity
      return "progid:DXImageTransform.Microsoft.Alpha(Opacity=".toList ++
        Decimal.number (opacity * 100.0).round ++ [')']
  | .transparentize, [value, amount] => do
      let color ← Color.parse value
      return (color.setAlpha (color.alpha - (← function.share amount))).toRgba
  | .ceil, _ | .floor, _ | .round, _ | .ieGradient, _ =>
      function.wrongCount 1 arguments
  | .lighten, _ | .darken, _ | .mixBlack, _ | .mixWhite, _
        | .transparentize, _ =>
      function.wrongCount 2 arguments
  | .hsb, _ | .mix, _ => function.wrongCount 3 arguments

end Builtin

end Stylesheet
