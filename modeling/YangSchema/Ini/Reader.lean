import YangSchema.Text.Blank
import YangSchema.Text.Digits

/-!
# Reading INI

`Ini.parse?` reads a document of sections. A section begins with its name in brackets and holds keys
with values, `=` or `:` between them; keys before the first section are in none. A line that begins
with `;` or `#` is a comment.

A backslash begins an escaped form, in names of sections, in keys and in values. Blanks around these
do not count. A value ends with its line; quotes at its beginning enclose text that is kept as it
is, also over the ends of lines.
-/

namespace YangSchema.Ini

/-- A section with its entries in order; the entries before the first section have no name. -/
structure Section where
  name : Option String
  entries : List (String × String)
  deriving Repr, DecidableEq

/-! ## Texts -/

/-- The character that a letter stands for behind a backslash. -/
def escapedLetter (c : Char) : Char :=
  if c = '0' then '\x00'
  else if c = 'a' then '\x07'
  else if c = 'b' then '\x08'
  else if c = 't' then '\t'
  else if c = 'r' then '\r'
  else if c = 'n' then '\n'
  else c

/-- The character of the number of hexadecimal digits behind an optional plus sign. -/
def charOfDigits? (digits : List Char) : Option Char :=
  let digits := if digits.head? = some '+' then digits.drop 1 else digits
  (Text.hexNumber? digits).bind Text.charOfNumber?

/-- Puts a character in front of a text that has been read, if both are there. -/
def push (c : Option Char) (rest : Option (List Char × List Char)) :
    Option (List Char × List Char) :=
  match c, rest with
  | some c, some (text, rest) => some (c :: text, rest)
  | _, _ => none

/-- Reads a text up to a character that ends it; `endless` says that the end of the document ends it
too. A backslash at the end of a line takes out the line break and the character behind it. -/
def textUntil? (stops : Char → Bool) (endless : Bool) : List Char → Option (List Char × List Char)
  | [] => if endless then some ([], []) else none
  | '\\' :: 'x' :: a :: b :: c :: d :: rest =>
    push (charOfDigits? [a, b, c, d]) (textUntil? stops endless rest)
  | '\\' :: '\n' :: _ :: rest => textUntil? stops endless rest
  | '\\' :: c :: rest =>
    if c = 'x' then none
    else if c = '\n' then textUntil? stops endless rest
    else push (some (escapedLetter c)) (textUntil? stops endless rest)
  | c :: rest =>
    if stops c then some ([], c :: rest)
    else if c = '\\' then none
    else push (some c) (textUntil? stops endless rest)

/-- Whether a character ends a line. -/
def isLineEnd (c : Char) : Bool := c == '\n' || c == '\r'

/-- A text without blanks at its end. -/
def trimEnd (cs : List Char) : List Char := (cs.reverse.dropWhile Text.isBlank).reverse

/-- Reads a value behind the blanks in front of it; `isBegun` says that a part in quotes has been
read. -/
def valueParts? : (fuel : Nat) → (isBegun : Bool) → List Char → Option (List Char × List Char)
  | 0, _, _ => none
  | fuel + 1, isBegun, cs =>
    let quote := cs.head?.filter fun c => c == '"' || c == '\''
    match quote with
    | some q => do
      let (text, rest) ← textUntil? (· == q) false (cs.drop 1)
      let (more, rest) ← valueParts? fuel true (rest.drop 1)
      return (text ++ more, rest)
    | none => do
      let (text, rest) ← textUntil? isLineEnd true cs
      return (if isBegun then trimEnd text else Text.trimChars text, rest)

/-- Reads a value behind its sign. -/
def value? (cs : List Char) : Option (List Char × List Char) :=
  let cs := cs.dropWhile fun c => Text.isBlank c && !isLineEnd c
  valueParts? (cs.length + 1) false cs

/-! ## Documents -/

/-- Drops blanks; says whether what follows begins a line, as `beginsLine` says of what is there. -/
def skipBlanks (beginsLine : Bool) : List Char → Bool × List Char
  | [] => (beginsLine, [])
  | c :: cs => if Text.isBlank c then skipBlanks (c == '\n') cs else (beginsLine, c :: cs)

/-- What is behind the end of the line. -/
def nextLine (cs : List Char) : List Char := (cs.dropWhile (· != '\n')).drop 1

/-- Reads a key with its value. -/
def entry? (cs : List Char) : Option ((String × String) × List Char) := do
  let (key, rest) ← textUntil? (fun c => c == '=' || c == ':') false cs
  let (value, rest) ← value? (rest.drop 1)
  let key := Text.trimChars key
  if key.isEmpty then none else return ((String.ofList key, String.ofList value), rest)

/-- Reads what is left of a document in a section. -/
def sections? : (fuel : Nat) → (beginsLine : Bool) → (here : Section) → List Char →
    Option (List Section)
  | 0, _, _, _ => none
  | fuel + 1, beginsLine, here, cs =>
    match skipBlanks beginsLine cs with
    | (_, []) => some [here]
    | (beginsLine, c :: cs) =>
      if c = ';' ∨ c = '#' then
        if beginsLine then sections? fuel true here (nextLine cs) else none
      else if c = '[' then do
        let (name, rest) ← textUntil? (· == ']') false cs
        let opened : Section := ⟨some (String.ofList (Text.trimChars name)), []⟩
        let behind ← sections? fuel false opened (rest.drop 1)
        return here :: behind
      else do
        let (entry, rest) ← entry? (c :: cs)
        sections? fuel false ⟨here.name, here.entries ++ [entry]⟩ rest

/-- Reads a document. -/
def parse? (text : String) : Option (List Section) :=
  let cs := text.toList
  sections? (cs.length + 1) true ⟨none, []⟩ cs

end YangSchema.Ini
