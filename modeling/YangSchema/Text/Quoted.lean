import YangSchema.Text.Visible

/-!
# Quoted display of a text

Messages show a text in double quotes. A quote and a backslash are written behind a backslash;
newline, carriage return, tab and NUL are written `\n`, `\r`, `\t` and `\0`; every other character
that is not visible is written `\u{h}` with its code point in the fewest lower-case hexadecimal
digits.
-/

namespace YangSchema.Text

/-- The code point in hexadecimal digits, between braces behind `\u`. -/
def escapeByNumber (c : Char) : List Char :=
  ['\\', 'u', '\x7b'] ++ Nat.toDigits 16 c.toNat ++ ['\x7d']

/-- How one character is shown between quotes. -/
def displayChar (c : Char) : List Char :=
  if c = '"' then ['\\', '"']
  else if c = '\\' then ['\\', '\\']
  else if c = '\n' then ['\\', 'n']
  else if c = '\r' then ['\\', 'r']
  else if c = '\t' then ['\\', 't']
  else if c = '\x00' then ['\\', '0']
  else if isVisible c then [c]
  else escapeByNumber c

/-- The text between quotes. -/
def quoted (s : String) : String :=
  String.ofList ('"' :: s.toList.flatMap displayChar ++ ['"'])

end YangSchema.Text
