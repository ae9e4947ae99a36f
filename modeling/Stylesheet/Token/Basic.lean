import Stylesheet.Decimal.Shortest
import Stylesheet.Text.Described

/-!
# Tokens

The tokens of the style language, as its specification divides a text, and
their descriptions in error reports.
-/

namespace Stylesheet

inductive Bracket where
  | round
  | square
  | curly
  deriving DecidableEq, Repr

/-- A token.  Numbers carry a single-precision value, whether a sign was
written, and their whole value if they have no point and no exponent. -/
inductive Token where
  | ident (name : Text)
  | function (name : Text)
  | atKeyword (name : Text)
  | hash (name : Text)
  | idHash (name : Text)
  | string (contents : Text)
  | badString (contents : Text)
  | url (address : Text)
  | badUrl (contents : Text)
  | delim (c : Char)
  | number (signed : Bool) (value : Float32) (whole : Option Int)
  | percentage (signed : Bool) (value : Float32) (whole : Option Int)
  | dimension (signed : Bool) (value : Float32)
      (whole : Option Int) (unit : Text)
  | colon
  | semicolon
  | comma
  | includeMatch
  | dashMatch
  | prefixMatch
  | suffixMatch
  | substringMatch
  | commentOpen
  | commentClose
  | opening (bracket : Bracket)
  | closing (bracket : Bracket)

namespace Token

/-- The bracket that a token opens; a function opens a round one. -/
def opens? : Token → Option Bracket
  | .function _ => some .round
  | .opening bracket => some bracket
  | _ => none

def closes? : Token → Option Bracket
  | .closing bracket => some bracket
  | _ => none

/-- A single-precision value with at least one digit after the point, or with
an exponent if it is at least `10 ^ 16` or below `10 ^ -4`. -/
def describeSingle (value : Float32) : Text :=
  match Decimal.ofSingle value with
  | .nan => "NaN".toList
  | .infinite negative => Decimal.signed negative "inf".toList
  | .finite negative magnitude =>
      Decimal.signed negative <|
        if magnitude.significand == 0 then "0.0".toList
        else
          let decimal := Decimal.shortest magnitude
          let digits := Text.ofNat decimal.digits
          let leading : Int := decimal.exponent + digits.length - 1
          if 16 ≤ leading || leading < -4 then
            let fraction := digits.drop 1
            digits.take 1 ++
              (if fraction.isEmpty then [] else '.' :: fraction) ++
              'e' :: (toString leading).toList
          else if 0 ≤ decimal.exponent then
            Decimal.positional digits decimal.exponent ++ ['.', '0']
          else Decimal.positional digits decimal.exponent

def describeWhole : Option Int → Text
  | none => "None".toList
  | some value => "Some(".toList ++ (toString value).toList ++ [')']

/-- The fields that all numbers share. -/
def describeNumber (signed : Bool) (label : String) (value : Float32)
    (whole : Option Int) : Text :=
  "has_sign: ".toList ++ (toString signed).toList ++ ", ".toList ++
    label.toList ++ ": ".toList ++
    describeSingle value ++ ", int_value: ".toList ++ describeWhole whole

def describeText (label : String) (contents : Text) : Text :=
  label.toList ++ '(' :: Text.describe contents ++ [')']

/-- A token as an error report shows it. -/
def describe : Token → Text
  | .ident name => describeText "Ident" name
  | .function name => describeText "Function" name
  | .atKeyword name => describeText "AtKeyword" name
  | .hash name => describeText "Hash" name
  | .idHash name => describeText "IDHash" name
  | .string contents => describeText "QuotedString" contents
  | .badString contents => describeText "BadString" contents
  | .url address => describeText "UnquotedUrl" address
  | .badUrl contents => describeText "BadUrl" contents
  | .delim c => "Delim(".toList ++ Text.describeChar c ++ [')']
  | .number signed value whole =>
      "Number \x7b ".toList ++ describeNumber signed "value" value whole ++
        " \x7d".toList
  | .percentage signed value whole =>
      "Percentage \x7b ".toList ++ describeNumber signed "unit_value" value
        whole ++ " \x7d".toList
  | .dimension signed value whole unit =>
      "Dimension \x7b ".toList ++ describeNumber signed "value" value whole ++
        ", unit: ".toList ++
        Text.describe unit ++ " \x7d".toList
  | .colon => "Colon".toList
  | .semicolon => "Semicolon".toList
  | .comma => "Comma".toList
  | .includeMatch => "IncludeMatch".toList
  | .dashMatch => "DashMatch".toList
  | .prefixMatch => "PrefixMatch".toList
  | .suffixMatch => "SuffixMatch".toList
  | .substringMatch => "SubstringMatch".toList
  | .commentOpen => "CDO".toList
  | .commentClose => "CDC".toList
  | .opening .round => "ParenthesisBlock".toList
  | .opening .square => "SquareBracketBlock".toList
  | .opening .curly => "CurlyBracketBlock".toList
  | .closing .round => "CloseParenthesis".toList
  | .closing .square => "CloseSquareBracket".toList
  | .closing .curly => "CloseCurlyBracket".toList

end Token

end Stylesheet
