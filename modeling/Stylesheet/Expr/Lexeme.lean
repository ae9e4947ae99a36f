import Stylesheet.Expr.Basic
import Stylesheet.Token.Lexer

/-!
# From text to symbols

An expression is read in two steps.  The tokens become lexemes: literals, bare
words, single characters and parentheses.  Then neighbouring words are joined
and characters are put together to operators, which gives the symbols that the
grammar is about.
-/

namespace Stylesheet.Expr

inductive Lexeme where
  | literal (value : Value)
  | word (contents : Text)
  | char (c : Char)
  | operator (operator : Operator)
  | not
  | opening
  | closing

/-- The terminal symbols of the expression grammar. -/
inductive Symbol where
  | literal (value : Value)
  | operator (operator : Operator)
  | not
  | opening
  | closing

/-- Whether a lexeme can be the end of an operand. -/
def Lexeme.isOperand : Lexeme → Bool
  | .literal _ | .word _ | .closing => true
  | _ => false

/-- Adds a number to the lexemes read so far, the last one first.  A sign right
after an operand is an operator: `5 -3` is a difference. -/
def pushNumber (lexemes : List Lexeme) (signed : Bool) (value : Float)
    (make : Float → Lexeme) :
    List Lexeme :=
  if signed && (lexemes.head?.map Lexeme.isOperand).getD false then
    make value.abs :: .operator (if value < 0.0 then .sub else .add) :: lexemes
  else make value :: lexemes

/-- The first `count` bytes of a text, unless that cuts a character. -/
def takeBytes? : (count : Nat) → Text → Option Text
  | 0, _ => some []
  | _ + 1, [] => none
  | count + 1, c :: rest =>
      if c.utf8Size ≤ count + 1 then
        (takeBytes? (count + 1 - c.utf8Size) rest).map (c :: ·)
      else none

/-- The value of a dimension as written: `slice` ends with `unit`, unless the
unit was written with escapes; then the value of the token stands in. -/
def dimensionValue (slice unit : Text) (value : Float32) : Float :=
  let written := takeBytes? (slice.byteLength - unit.byteLength) slice
  (written.bind Decimal.read?).getD value.toFloat

/-- The words that are literals or operators, in any letter case. -/
def Lexeme.ofName (name : Text) : Lexeme :=
  match String.ofList name.lower with
  | "true" => .literal (.bool true)
  | "false" => .literal (.bool false)
  | "null" => .literal .null
  | "and" => .operator .and
  | "or" => .operator .or
  | "not" => .not
  | _ => .word name

/-- How reading the lexemes of a block ended, and the text at that point. -/
inductive Collected where
  | done (lexemes : List Lexeme) (rest : Text)
  | failed (fault : Fault) (rest : Text)

/-- The token that is left in a round block, if any. -/
def leftover? (text : Text) : Option Token :=
  match Token.skipGaps text with
  | [] => none
  | c :: rest => if c == ')' then none else some (Token.readFrom c rest).1

/-- Reads lexemes up to the end of the text or, in a `nested` block, up to its
closing parenthesis.  `lexemes` holds those read so far, the last one first.

A fault inside a block gives way to the token that is left in the block after
it, if there is one. -/
def collect : (fuel : Nat) → (nested : Bool) → (lexemes : List Lexeme) →
    Text → Collected
  | 0, _, lexemes, text => .done lexemes text
  | fuel + 1, nested, lexemes, text =>
      match Token.skipGaps text with
      | [] => .done lexemes []
      | c :: tail =>
          if nested && c == ')' then .done lexemes (c :: tail)
          else
            let (token, rest) := Token.readFrom c tail
            let slice := (Token.before text rest).trim
            match token with
            | .number signed value _ =>
                let value := (Decimal.read? slice).getD value.toFloat
                collect fuel nested
                  (pushNumber lexemes signed value (.literal <| .number ·)) rest
            | .dimension signed value _ unit =>
                let value := dimensionValue slice unit value
                if Text.sameLetters unit "px".toList then
                  collect fuel nested
                    (pushNumber lexemes signed value (.literal <| .number ·))
                      rest
                else
                  collect fuel nested
                    (pushNumber lexemes signed value
                      (.word <| Decimal.number · ++ unit)) rest
            | .percentage .. =>
                collect fuel nested (.word slice :: lexemes) rest
            | .string contents =>
                collect fuel nested (.literal (.text contents) :: lexemes) rest
            | .ident name => collect fuel nested (.ofName name :: lexemes) rest
            | .hash name | .idHash name =>
                collect fuel nested (.word ('#' :: name) :: lexemes) rest
            | .url address =>
                collect fuel nested
                  (.word ("url(".toList ++ address ++ [')']) :: lexemes) rest
            | .function _ =>
                let rest := Token.skipBlock .round rest
                collect fuel nested
                  (.word (Token.before text rest).trim :: lexemes) rest
            | .opening .round =>
                match collect fuel true (.opening :: lexemes) rest with
                | .done inner ending =>
                    collect fuel nested (.closing :: inner)
                      (Token.skipBlock .round ending)
                | .failed fault ending =>
                    let fault :=
                      ((leftover? ending).map Fault.leftover).getD fault
                    .failed fault (Token.skipBlock .round ending)
            | .delim c => collect fuel nested (.char c :: lexemes) rest
            | other =>
                .failed (.unexpectedToken other) <|
                  match other.opens? with
                  | some bracket => Token.skipBlock bracket rest
                  | none => rest

/-- The lexemes of a text. -/
def lexemes (text : Text) : Except Fault (List Lexeme) :=
  match collect (text.length + 1) false [] text with
  | .done lexemes _ => .ok lexemes.reverse
  | .failed fault _ => .error fault

/-- The symbol that a character stands for, and whether it takes the character
`next` behind it along. -/
def symbolOf? (c : Char) (next : Option Char) : Option (Symbol × Bool) :=
  let doubled (second : Char) := next == some second
  match c with
  | '=' => some (.operator .eq, doubled '=')
  | '!' =>
      if doubled '=' then some (.operator .ne, true) else some (.not, false)
  | '<' =>
      if doubled '=' then some (.operator .le, true)
      else some (.operator .lt, false)
  | '>' =>
      if doubled '=' then some (.operator .ge, true)
      else some (.operator .gt, false)
  | '&' => if doubled '&' then some (.operator .and, true) else none
  | '|' => if doubled '|' then some (.operator .or, true) else none
  | '+' => some (.operator .add, false)
  | '-' => some (.operator .sub, false)
  | '*' => some (.operator .mul, false)
  | '/' => some (.operator .div, false)
  | '%' => some (.operator .rem, false)
  | _ => none

def nextChar? : List Lexeme → Option Char
  | .char c :: _ => some c
  | _ => none

/-- The literal that the words read so far make up, if there are any. -/
def joinedWords : Option Text → List Symbol
  | some words => [.literal (.text words)]
  | none => []

/-- The symbols of a list of lexemes; `words` holds the bare words right before
it, joined by spaces. -/
def symbolsAfter : (words : Option Text) → List Lexeme →
    Except Fault (List Symbol)
  | words, [] => .ok (joinedWords words)
  | words, .word contents :: rest =>
      match words with
      | some joined => symbolsAfter (some (joined ++ ' ' :: contents)) rest
      | none => symbolsAfter (some contents) rest
  | words, .literal value :: rest => do
      return joinedWords words ++ .literal value :: (← symbolsAfter none rest)
  | words, .operator operator :: rest => do
      return joinedWords words ++ .operator operator ::
        (← symbolsAfter none rest)
  | words, .not :: rest => do
      return joinedWords words ++ .not :: (← symbolsAfter none rest)
  | words, .opening :: rest => do
      return joinedWords words ++ .opening :: (← symbolsAfter none rest)
  | words, .closing :: rest => do
      return joinedWords words ++ .closing :: (← symbolsAfter none rest)
  | words, .char c :: rest =>
      match symbolOf? c (nextChar? rest) with
      | none => .error (.unexpectedChar c)
      | some (symbol, taken) =>
          match rest with
          | [] => .ok (joinedWords words ++ [symbol])
          | next :: tail => do
              let following ← if taken then symbolsAfter none tail
                  else symbolsAfter none (next :: tail)
              return joinedWords words ++ symbol :: following

/-- The symbols of a text. -/
def symbols (text : Text) : Except Fault (List Symbol) := do
  symbolsAfter none (← lexemes text)

end Stylesheet.Expr
