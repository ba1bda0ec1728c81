import YangSchema.Text.Digits

/-!
# Texts in TOML

A text stands in double quotes, where a backslash begins an escaped form, or in single quotes, where
it stands as it is; one pair of quotes encloses a text of one line, three pairs one of any number of
lines. A line break right behind three opening quotes does not count. In double quotes a backslash
at the end of a line takes out the line break and all blanks and line breaks behind it.

All readers take what is behind the opening quotes and give the text and what is behind the closing
ones.
-/

namespace YangSchema.Toml

/-- Whether a character is a blank inside a line. -/
def isSpace (c : Char) : Bool := c == ' ' || c == '\t'

/-- Whether a character can stand as it is in a comment or a text of one line. -/
def isPlain (c : Char) : Bool := c == '\t' || (' ' ≤ c && c != '\x7f')

/-- The character of a code point in hexadecimal digits. -/
def charOfDigits? (digits : List Char) : Option Char :=
  (Text.hexNumber? digits).bind Text.charOfNumber?

/-- The character that a letter stands for behind a backslash. -/
def escapedLetter? (c : Char) : Option Char :=
  if c = '"' ∨ c = '\\' then some c
  else if c = 'b' then some '\x08'
  else if c = 't' then some '\t'
  else if c = 'n' then some '\n'
  else if c = 'f' then some '\x0c'
  else if c = 'r' then some '\r'
  else none

/-- Puts a character in front of a text that has been read, if both are there. -/
def push (c : Option Char) (rest : Option (List Char × List Char)) :
    Option (List Char × List Char) :=
  match c, rest with
  | some c, some (text, rest) => some (c :: text, rest)
  | _, _ => none

/-- Reads a text of one line in double quotes. -/
def basic : List Char → Option (List Char × List Char)
  | [] => none
  | '"' :: rest => some ([], rest)
  | '\\' :: 'u' :: a :: b :: c :: d :: rest => push (charOfDigits? [a, b, c, d]) (basic rest)
  | '\\' :: 'U' :: a :: b :: c :: d :: e :: f :: g :: h :: rest =>
    push (charOfDigits? [a, b, c, d, e, f, g, h]) (basic rest)
  | '\\' :: c :: rest => push (escapedLetter? c) (basic rest)
  | c :: rest => if isPlain c then push (some c) (basic rest) else none

/-- Reads a text of one line in single quotes. -/
def literal : List Char → Option (List Char × List Char)
  | [] => none
  | '\'' :: rest => some ([], rest)
  | c :: rest => if isPlain c then push (some c) (literal rest) else none

/-- Whether only blanks stand before the next line break. -/
def endsLine (cs : List Char) : Bool := (cs.dropWhile isSpace).head? == some '\n'

/-- Reads a text of several lines in double quotes; `skipping` says that blanks and line breaks do
not count. -/
def basicLines (skipping : Bool) : List Char → Option (List Char × List Char)
  | [] => none
  | '"' :: '"' :: '"' :: '"' :: '"' :: rest => some (['"', '"'], rest)
  | '"' :: '"' :: '"' :: '"' :: rest => some (['"'], rest)
  | '"' :: '"' :: '"' :: rest => some ([], rest)
  | '\\' :: 'u' :: a :: b :: c :: d :: rest =>
    push (charOfDigits? [a, b, c, d]) (basicLines false rest)
  | '\\' :: 'U' :: a :: b :: c :: d :: e :: f :: g :: h :: rest =>
    push (charOfDigits? [a, b, c, d, e, f, g, h]) (basicLines false rest)
  | '\\' :: c :: rest =>
    if endsLine (c :: rest) then basicLines true rest
    else push (escapedLetter? c) (basicLines false rest)
  | c :: rest =>
    if skipping && (isSpace c || c == '\n') then basicLines true rest
    else if isPlain c || c == '\n' then push (some c) (basicLines false rest)
    else none

/-- Reads a text of several lines in single quotes. -/
def literalLines : List Char → Option (List Char × List Char)
  | [] => none
  | '\'' :: '\'' :: '\'' :: '\'' :: '\'' :: rest => some (['\'', '\''], rest)
  | '\'' :: '\'' :: '\'' :: '\'' :: rest => some (['\''], rest)
  | '\'' :: '\'' :: '\'' :: rest => some ([], rest)
  | c :: rest => if isPlain c || c == '\n' then push (some c) (literalLines rest) else none

/-- What is behind a line break in front. -/
def dropLineBreak : List Char → List Char
  | '\n' :: rest => rest
  | cs => cs

/-- Reads a text from its opening quotes on. -/
def quotedText? : List Char → Option (List Char × List Char)
  | '"' :: '"' :: '"' :: rest => basicLines false (dropLineBreak rest)
  | '"' :: rest => basic rest
  | '\'' :: '\'' :: '\'' :: rest => literalLines (dropLineBreak rest)
  | '\'' :: rest => literal rest
  | _ => none

/-- Reads a text of one line from its opening quote on. -/
def quotedKey? : List Char → Option (List Char × List Char)
  | '"' :: rest => basic rest
  | '\'' :: rest => literal rest
  | _ => none

end YangSchema.Toml
