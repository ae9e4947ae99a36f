import Stylesheet.Text.Shown

/-!
# Descriptions of text

Error reports show characters and strings with escapes for what would not be
visible.
-/

namespace Stylesheet.Text

def codeEscape (c : Char) : Text :=
  ['\\', 'u', '{'] ++ Nat.toDigits 16 c.toNat ++ ['}']

/-- A character in ASCII, with both quotes and the backslash escaped. -/
def describeAscii (c : Char) : Text :=
  if c == '\t' then ['\\', 't']
  else if c == '\n' then ['\\', 'n']
  else if c == '\r' then ['\\', 'r']
  else if c == '\'' || c == '"' || c == '\\' then ['\\', c]
  else if 0x20 ≤ c.toNat && c.toNat < 0x7F then [c]
  else codeEscape c

/-- A character inside quotes of the kind `mark`. -/
def describeInside (mark c : Char) : Text :=
  if c == '\x00' then ['\\', '0']
  else if c == '\t' then ['\\', 't']
  else if c == '\n' then ['\\', 'n']
  else if c == '\r' then ['\\', 'r']
  else if c == mark || c == '\\' then ['\\', c]
  else if isShown c then [c]
  else codeEscape c

/-- A text in double quotes. -/
def describe (text : Text) : Text :=
  '"' :: text.flatMap (describeInside '"') ++ ['"']

/-- A character in single quotes. -/
def describeChar (c : Char) : Text :=
  '\'' :: describeInside '\'' c ++ ['\'']

end Stylesheet.Text
