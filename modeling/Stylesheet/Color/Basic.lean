import Stylesheet.Color.Names
import Stylesheet.Decimal.Numeral
import Stylesheet.Error
import Stylesheet.Token.Lexer

/-!
# Colours

Channels are kept as floating-point numbers from 0 to 255 and the opacity as one
from 0 to 1; they are rounded only when a colour is written.  What is not a
number becomes 0 in a channel and full opacity.
-/

namespace Stylesheet

structure Color where
  red : Float
  green : Float
  blue : Float
  alpha : Float

namespace Color

def clampChannel (value : Float) : Float :=
  if value.isNaN then 0.0
  else if value < 0.0 then 0.0
  else if 255.0 < value then 255.0
  else value

def clampAlpha (value : Float) : Float :=
  if value.isNaN then 1.0
  else if value < 0.0 then 0.0
  else if 1.0 < value then 1.0
  else value

/-- The colour with the given channels, moved into their ranges. -/
def rgba (red green blue alpha : Float) : Color :=
  ⟨clampChannel red, clampChannel green, clampChannel blue, clampAlpha alpha⟩

def rgb (red green blue : Float) : Color :=
  rgba red green blue 1.0

/-- The opaque colour of the low twenty-four bits of a packed value. -/
def ofPacked (packed : Nat) : Color :=
  rgb (Float.ofNat (packed / 65536 % 256)) (Float.ofNat (packed / 256 % 256))
    (Float.ofNat (packed % 256))

/-- Three hexadecimal digits, each written twice in the full form, or six. -/
def hexValue? (digits : Text) : Option Nat :=
  if digits.all Token.isHexDigit then
    match digits with
    | [r, g, b] => some (Token.hexValue [r, r, g, g, b, b])
    | [_, _, _, _, _, _] => some (Token.hexValue digits)
    | _ => none
  else none

/-- The packed value of a colour name or of a hexadecimal literal. -/
def packedValue? (value : Text) : Option Nat :=
  match namedValue? value with
  | some packed => some packed
  | none =>
      match value with
      | '#' :: digits => hexValue? digits
      | _ => none

/-- The channels between the parentheses of `rgb()` or `rgba()`. -/
def ofChannels? (list : Text) : Option Color := do
  match ← (list.splitAt ',').mapM fun part => Decimal.read? part.trim with
  | [red, green, blue] => some (rgb red green blue)
  | [red, green, blue, alpha] => some (rgba red green blue alpha)
  | _ => none

/-- The text between the parentheses of `rgb()` or `rgba()`. -/
def channelList? (value : Text) : Option Text := do
  let inner ← ("rgba(".toList.isPrefixOf? value.lower).or
      ("rgb(".toList.isPrefixOf? value.lower)
  [')'].isSuffixOf? inner

/-- A colour name, a hexadecimal literal, or channels in `rgb()` or `rgba()`. -/
def parse (value : Text) : Except Error Color :=
  let value := value.trim
  match (packedValue? value).map ofPacked |>.or
    ((channelList? value).bind ofChannels?) with
  | some color => .ok color
  | none => .error (.invalidColor value)

/-- The remainder that is not negative. -/
def modulo (dividend divisor : Float) : Float :=
  let left := Decimal.remainder dividend divisor
  if left < 0.0 then left + divisor.abs else left

/-- Hue in degrees, saturation and brightness in percent. -/
def ofHsb (hue saturation brightness : Float) : Color :=
  let s := saturation / 100.0
  let v := brightness / 100.0
  let sector := (hue / 60.0).floor
  let f := hue / 60.0 - sector
  let p := v * (1.0 - s)
  let q := v * (1.0 - f * s)
  let t := v * (1.0 - (1.0 - f) * s)
  let (red, green, blue) :=
    match (modulo sector 6.0).toUInt8.toNat with
    | 0 => (v, t, p)
    | 1 => (q, v, p)
    | 2 => (p, v, t)
    | 3 => (p, q, v)
    | 4 => (t, p, v)
    | _ => (v, p, q)
  rgb (red * 255.0) (green * 255.0) (blue * 255.0)

def setAlpha (color : Color) (alpha : Float) : Color :=
  rgba color.red color.green color.blue alpha

def addRgb (color : Color) (red green blue : Float) : Color :=
  rgba (color.red + red) (color.green + green) (color.blue + blue) color.alpha

def add (color : Color) (amount : Float) : Color :=
  color.addRgb amount amount amount

def multiplyRgb (color : Color) (red green blue : Float) : Color :=
  rgba (color.red * red) (color.green * green) (color.blue * blue) color.alpha

def multiply (color : Color) (factor : Float) : Color :=
  color.multiplyRgb factor factor factor

/-- Lays channels over a colour: they count for the share `amount`, the colour
for the rest, and the sums are rounded. -/
def mix (color : Color) (red green blue amount : Float) : Color :=
  let keep := 1.0 - amount
  rgba (keep * color.red + red * amount).round
    (keep * color.green + green * amount).round
    (keep * color.blue + blue * amount).round color.alpha

def mixWith (color cover : Color) (amount : Float) : Color :=
  color.mix cover.red cover.green cover.blue amount

/-- The rounded channels, eight bits each. -/
def toPacked (color : Color) : Nat :=
  let channel (value : Float) : Nat := value.round.toUInt32.toNat
  channel color.red * 65536 + channel color.green * 256 + channel color.blue

/-- The digits of a number with zeros in front to make at least `width`. -/
def padded (width : Nat) (digits : Text) : Text :=
  List.replicate (width - digits.length) '0' ++ digits

/-- The name of a packed value, or its six hexadecimal digits. -/
def packedText (packed : Nat) : Text :=
  match nameOf? packed with
  | some name => name
  | none => '#' :: padded 6 (Nat.toDigits 16 packed)

def toHex (color : Color) : Text :=
  packedText color.toPacked

/-- The rounded channels and the opacity to two places. -/
def toRgba (color : Color) : Text :=
  "rgba(".toList ++ Decimal.plain color.red.round ++ ',' ::
    Decimal.plain color.green.round ++
    ',' :: Decimal.plain color.blue.round ++
    ',' :: Decimal.number ((color.alpha * 100.0).round / 100.0) ++ [')']

end Color

end Stylesheet
