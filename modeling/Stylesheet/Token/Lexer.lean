import Stylesheet.Decimal.Numeral
import Stylesheet.Token.Basic

/-!
# Reading tokens

`Token.next?` skips blanks and comments and reads one token; it returns the
text after the token.  Every reader here takes the text at its position and
gives back what follows.
-/

namespace Stylesheet.Token

/-- White space between tokens. -/
def isGap (c : Char) : Bool :=
  c == ' ' || c == '\t' || c == '\n' || c == '\x0c' || c == '\r'

def isNewline (c : Char) : Bool :=
  c == '\n' || c == '\x0c' || c == '\r'

def replacement : Char := '�'

/-- Letters, `_`, everything outside ASCII, and the null character. -/
def isNameStart (c : Char) : Bool :=
  c.isAlpha || c == '_' || c == '\x00' || 0x80 ≤ c.toNat

/-- Whether a name starts here, possibly with an escape.  After a `-`, a
backslash counts as the start of a name whatever follows it. -/
def startsName : Text → Bool
  | '-' :: c :: _ => isNameStart c || c == '-' || c == '\\'
  | '\\' :: c :: _ => !isNewline c
  | ['\\'] => true
  | c :: _ => isNameStart c
  | [] => false

/-- Reads pieces as long as `piece?` finds one, at most `fuel` of them. -/
def manyWithin {α : Type} (piece? : Text → Option (α × Text)) : Nat →
    Text → List α × Text
  | 0, text => ([], text)
  | fuel + 1, text =>
      match piece? text with
      | none => ([], text)
      | some (piece, rest) =>
          let (pieces, rest) := manyWithin piece? fuel rest
          (piece :: pieces, rest)

/-- Reads pieces as long as `piece?` finds one; each takes at least one
character. -/
def many {α : Type} (piece? : Text → Option (α × Text)) (text : Text) :
    List α × Text :=
  manyWithin piece? text.length text

/-- The part of `text` before its tail `rest`. -/
def before (text rest : Text) : Text :=
  text.take (text.length - rest.length)

def isHexDigit (c : Char) : Bool :=
  c.isDigit || ('a' ≤ c && c ≤ 'f') || ('A' ≤ c && c ≤ 'F')

def hexValue (digits : Text) : Nat :=
  digits.foldl (fun value c =>
    16 * value + if c.isDigit then c.toNat - '0'.toNat
      else c.toLower.toNat - 'a'.toNat + 10) 0

/-- A newline; a carriage return takes the line feed after it along. -/
def skipNewline : Text → Text
  | '\r' :: '\n' :: rest => rest
  | _ :: rest => rest
  | [] => []

/-- The character that an escape stands for, after its backslash. -/
def readEscape : Text → Char × Text
  | [] => (replacement, [])
  | c :: rest =>
      if isHexDigit c then
        let digits := ((c :: rest).take 6).takeWhile isHexDigit
        let code := hexValue digits
        let afterDigits := (c :: rest).drop digits.length
        let afterEscape :=
          match afterDigits with
          | d :: tail => if isNewline d then skipNewline afterDigits
              else if isGap d then tail else afterDigits
          | [] => []
        (if code == 0 || !decide code.isValidChar then replacement
          else Char.ofNat code, afterEscape)
      else (if c == '\x00' then replacement else c, rest)

def nameChar? : Text → Option (Char × Text)
  | [] => none
  | '\\' :: rest =>
      match rest with
      | c :: _ => if isNewline c then none else some (readEscape rest)
      | [] => some (readEscape rest)
  | c :: rest =>
      if c == '\x00' then some (replacement, rest)
      else if isNameStart c || c.isDigit || c == '-' then some (c, rest)
      else none

def readName (text : Text) : Text × Text :=
  many nameChar? text

/-- One step inside a string that `mark` ends; none at its end. -/
def stringPiece? (mark : Char) : Text → Option (Text × Text)
  | [] => none
  | '\\' :: rest =>
      match rest with
      | [] => some ([], [])
      | c :: _ =>
          if isNewline c then some ([], skipNewline rest)
          else
            let (escaped, afterEscape) := readEscape rest
            some ([escaped], afterEscape)
  | c :: rest =>
      if c == mark || isNewline c then none
      else if c == '\x00' then some ([replacement], rest)
      else some ([c], rest)

/-- A string after its opening quote.  The end of the text closes it; a bare
newline spoils it. -/
def readString (mark : Char) (text : Text) : Token × Text :=
  let (pieces, rest) := many (stringPiece? mark) text
  let contents := pieces.flatten
  match rest with
  | [] => (.string contents, [])
  | c :: tail =>
      if c == mark then (.string contents, tail)
      else (.badString contents, rest)

def isUnprintable (c : Char) : Bool :=
  let code := c.toNat
  (1 ≤ code && code ≤ 8) || code == 0xB ||
    (0xE ≤ code && code ≤ 0x1F) || code == 0x7F

/-- One step inside an unquoted address; none where it ends or is spoiled. -/
def urlPiece? : Text → Option (Char × Text)
  | [] => none
  | '\\' :: rest =>
      match rest with
      | c :: _ => if isNewline c then none else some (readEscape rest)
      | [] => some (readEscape rest)
  | c :: rest =>
      if isGap c || c == ')' || isUnprintable c || c == '"' || c == '\'' ||
          c == '(' then none
      else if c == '\x00' then some (replacement, rest)
      else some (c, rest)

/-- The text from the parenthesis that ends a spoiled address. -/
def skipBadUrl : Text → Text
  | [] => []
  | ')' :: rest => ')' :: rest
  | '\\' :: c :: rest =>
      if c == ')' || c == '\\' then skipBadUrl rest else skipBadUrl (c :: rest)
  | _ :: rest => skipBadUrl rest

def readBadUrl (start rest : Text) : Token × Text :=
  let ending := skipBadUrl rest
  (.badUrl (before start ending), ending.drop 1)

/-- An address from its first character on. -/
def readUrlFrom (start : Text) : Token × Text :=
  let (address, rest) := many urlPiece? start
  match rest with
  | [] => (.url address, [])
  | c :: tail =>
      if c == ')' then (.url address, tail)
      else if isGap c then
        match tail.dropWhile isGap with
        | [] => (.url address, [])
        | d :: last =>
            if d == ')' then (.url address, last) else readBadUrl start last
      else readBadUrl start tail

/-- What follows the opening parenthesis of `url(`; none if a quote does. -/
def readUrl? (text : Text) : Option (Token × Text) :=
  match text.dropWhile isGap with
  | [] => some (.url [], [])
  | c :: rest =>
      if c == '"' || c == '\'' then none
      else if c == ')' then some (.url [], rest)
      else some (readUrlFrom (c :: rest))

/-- A name, or a function or address if a parenthesis follows directly. -/
def readIdentLike (text : Text) : Token × Text :=
  let (name, rest) := readName text
  match rest with
  | '(' :: tail =>
      if Text.sameLetters name "url".toList then
        (readUrl? tail).getD (.function name, tail)
      else (.function name, tail)
  | _ => (.ident name, rest)

def startsDigits : Text → Bool
  | c :: _ => c.isDigit
  | [] => false

/-- A digit, or a point with a digit behind it. -/
def startsUnsigned : Text → Bool
  | '.' :: rest => startsDigits rest
  | text => startsDigits text

/-- Splits off `[eE][+-]?\d+`: the exponent's sign and digits. -/
def readPower? : Text → Option (Bool × Text × Text)
  | c :: rest =>
      if c == 'e' || c == 'E' then
        let (negative, digits) :=
          match rest with
          | '-' :: tail => (true, tail)
          | '+' :: tail => (false, tail)
          | _ => (false, rest)
        if startsDigits digits then
          let (power, afterPower) := Decimal.spanDigits digits
          some (negative, power, afterPower)
        else none
      else none
  | [] => none

/-- The sum of digits with the weights ten, a hundred and so on, in double
arithmetic from the left. -/
def wholeValue (digits : Text) : Float :=
  digits.foldl
    (fun value c => value * 10.0 + Float.ofNat (Decimal.digitValue c)) 0.0

/-- The sum of digits with the weights a tenth, a hundredth and so on. -/
def fractionValue (digits : Text) : Float :=
  (digits.foldl
    (fun (value, weight) c =>
      (value + Float.ofNat (Decimal.digitValue c) * weight, weight * 0.1))
    (0.0, (0.1 : Float))).1

/-- The nearest whole number of thirty-two bits. -/
def clampWhole (value : Int) : Int :=
  max (-2147483648) (min 2147483647 value)

/-- A number, percentage or dimension; at least one digit is known to follow. -/
def readNumeric (text : Text) : Token × Text :=
  let (signed, negative, unsigned) :=
    match text with
    | '-' :: rest => (true, true, rest)
    | '+' :: rest => (true, false, rest)
    | _ => (false, false, text)
  let (digits, afterDigits) := Decimal.spanDigits unsigned
  let (fraction, afterFraction) :=
    match afterDigits with
    | '.' :: rest =>
        if startsDigits rest then Decimal.spanDigits rest else ([], afterDigits)
    | _ => ([], afterDigits)
  let sign : Float := if negative then -1.0 else 1.0
  let unscaled := sign * (wholeValue digits + fractionValue fraction)
  let (value, hasPower, afterPower) :=
    match readPower? afterFraction with
    | some (negativePower, power, rest) =>
        let direction : Float := if negativePower then -1.0 else 1.0
        (unscaled * Float.pow 10.0 (direction * wholeValue power), true, rest)
    | none => (unscaled, false, afterFraction)
  let whole : Option Int :=
    if fraction.isEmpty && !hasPower then
      let magnitude : Int := Decimal.digitsValue digits
      some (clampWhole (if negative then -magnitude else magnitude))
    else none
  match afterPower with
  | '%' :: rest => (.percentage signed (value / 100.0).toFloat32 whole, rest)
  | _ =>
      if startsName afterPower then
        let (unit, rest) := readName afterPower
        (.dimension signed value.toFloat32 whole unit, rest)
      else (.number signed value.toFloat32 whole, afterPower)

/-- Skips blanks and comments; `comment` says whether the position is inside a
comment, and then whether a `*` stands before it. -/
def skipGapsFrom : (comment : Option Bool) → Text → Text
  | _, [] => []
  | some star, c :: rest =>
      if star && c == '/' then skipGapsFrom none rest
      else skipGapsFrom (some (c == '*')) rest
  | none, '/' :: '*' :: rest => skipGapsFrom (some false) rest
  | none, c :: rest => if isGap c then skipGapsFrom none rest else c :: rest

def skipGaps (text : Text) : Text :=
  skipGapsFrom none text

/-- `matched` if an equals sign follows, and the bare character if not. -/
def matchOr (matched : Token) (c : Char) : Text → Token × Text
  | '=' :: rest => (matched, rest)
  | rest => (.delim c, rest)

/-- Reads the token that starts with `c`. -/
def readFrom (c : Char) (rest : Text) : Token × Text :=
  match c with
  | '"' => readString '"' rest
  | '\'' => readString '\'' rest
  | '#' =>
      if startsName rest then
        let (name, tail) := readName rest
        (.idHash name, tail)
      else if startsDigits rest || rest.head? == some '-' then
        let (name, tail) := readName rest
        (.hash name, tail)
      else (.delim '#', rest)
  | '$' => matchOr .suffixMatch '$' rest
  | '*' => matchOr .substringMatch '*' rest
  | '^' => matchOr .prefixMatch '^' rest
  | '|' => matchOr .dashMatch '|' rest
  | '~' => matchOr .includeMatch '~' rest
  | '(' => (.opening .round, rest)
  | ')' => (.closing .round, rest)
  | '[' => (.opening .square, rest)
  | ']' => (.closing .square, rest)
  | '{' => (.opening .curly, rest)
  | '}' => (.closing .curly, rest)
  | ',' => (.comma, rest)
  | ':' => (.colon, rest)
  | ';' => (.semicolon, rest)
  | '+' =>
      if startsUnsigned rest then readNumeric (c :: rest)
      else (.delim '+', rest)
  | '-' =>
      if startsUnsigned rest then readNumeric (c :: rest)
      else
        match rest with
        | '-' :: '>' :: tail => (.commentClose, tail)
        | _ =>
            if startsName (c :: rest) then readIdentLike (c :: rest)
            else (.delim '-', rest)
  | '.' =>
      if startsDigits rest then readNumeric (c :: rest) else (.delim '.', rest)
  | '<' =>
      match rest with
      | '!' :: '-' :: '-' :: tail => (.commentOpen, tail)
      | _ => (.delim '<', rest)
  | '@' =>
      if startsName rest then
        let (name, tail) := readName rest
        (.atKeyword name, tail)
      else (.delim '@', rest)
  | '\\' =>
      if startsName (c :: rest) then readIdentLike (c :: rest)
      else (.delim '\\', rest)
  | _ =>
      if c.isDigit then readNumeric (c :: rest)
      else if isNameStart c then readIdentLike (c :: rest)
      else (.delim c, rest)

/-- The next token and the text after it. -/
def next? (text : Text) : Option (Token × Text) :=
  match skipGaps text with
  | [] => none
  | c :: rest => some (readFrom c rest)

/-- Skips tokens until every bracket of `stack` is closed, the innermost first.
A closing bracket that does not fit the innermost open one is passed over. -/
def skipBlockWithin : (fuel : Nat) → (stack : List Bracket) → Text → Text
  | 0, _, text => text
  | _ + 1, [], text => text
  | fuel + 1, innermost :: outer, text =>
      match next? text with
      | none => []
      | some (token, rest) =>
          if token.closes? == some innermost then
            skipBlockWithin fuel outer rest
          else
            match token.opens? with
            | some bracket =>
                skipBlockWithin fuel (bracket :: innermost :: outer) rest
            | none => skipBlockWithin fuel (innermost :: outer) rest

/-- The text after the bracket that closes a block, from inside the block. -/
def skipBlock (bracket : Bracket) (text : Text) : Text :=
  skipBlockWithin (text.length + 1) [bracket] text

end Stylesheet.Token
