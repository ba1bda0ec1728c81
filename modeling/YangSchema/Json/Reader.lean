import YangSchema.Json.Basic

/-!
# Reading JSON

`Json.parse?` reads one value with blanks around it and between its parts. Each reader takes the
characters from where it starts and returns what it read and what is left. The readers of values
count down a number that bounds how many values may still start; a text of `n` characters holds at
most `n` of them.
-/

namespace YangSchema

namespace Json

/-- Whether a character may stand between the parts of a value. -/
def isSpace (c : Char) : Bool := c == ' ' || c == '\n' || c == '\t' || c == '\r'

/-- Drops blanks. -/
def skipSpace (cs : List Char) : List Char := cs.dropWhile isSpace

/-- Drops a word, if the characters start with it. -/
def word? (word cs : List Char) : Option (List Char) :=
  if word.isPrefixOf cs then some (cs.drop word.length) else none

/-- What stands between the quotes of a string whose opening quote is read; `acc` holds what was
read, latest first. -/
def readString? (acc : List Char) : List Char → Option (List Char × List Char)
  | [] => none
  | '\\' :: 'u' :: a :: b :: c :: d :: cs =>
    if (hexQuad? a b c d).isSome then
      readString? (d :: c :: b :: a :: 'u' :: '\\' :: acc) cs
    else none
  | '\\' :: c :: cs =>
    if (escapedLetter? c).isSome then readString? (c :: '\\' :: acc) cs else none
  | c :: cs =>
    if c = '"' then some (acc.reverse, cs)
    else if c = '\\' ∨ c.toNat < 32 then none
    else readString? (c :: acc) cs

/-- One or more digits. -/
def readDigits? (cs : List Char) : Option (List Char × List Char) :=
  let digits := cs.takeWhile Text.isDigit
  if digits.isEmpty then none else some (digits, cs.dropWhile Text.isDigit)

/-- The whole part of a number: a zero, or digits of which the first is none. -/
def readWhole? : List Char → Option (List Char × List Char)
  | '0' :: cs => some (['0'], cs)
  | cs => readDigits? cs

/-- A point with digits behind it, or nothing. -/
def readFraction? : List Char → Option (List Char × List Char)
  | '.' :: cs => (readDigits? cs).map fun r => ('.' :: r.1, r.2)
  | cs => some ([], cs)

/-- An exponent, or nothing. -/
def readExponent? : List Char → Option (List Char × List Char)
  | c :: cs =>
    if c = 'e' ∨ c = 'E' then
      match cs with
      | s :: rest =>
        if s = '+' ∨ s = '-' then (readDigits? rest).map fun r => (c :: s :: r.1, r.2)
        else (readDigits? cs).map fun r => (c :: r.1, r.2)
      | [] => none
    else some ([], c :: cs)
  | [] => some ([], [])

/-- A number. -/
def readNumber? (cs : List Char) : Option (List Char × List Char) := do
  let (sign, cs) := match cs with
    | '-' :: cs => (['-'], cs)
    | cs => ([], cs)
  let (whole, cs) ← readWhole? cs
  let (fraction, cs) ← readFraction? cs
  let (exponent, cs) ← readExponent? cs
  return (sign ++ whole ++ fraction ++ exponent, cs)

mutual

/-- One value that starts at the first character. -/
def readValue? : Nat → List Char → Option (Json × List Char)
  | 0, _ => none
  | n + 1, cs =>
    match cs with
    | [] => none
    | '"' :: cs => (readString? [] cs).map fun r => (.string r.1, r.2)
    | '[' :: cs =>
      match skipSpace cs with
      | ']' :: cs => some (.array [], cs)
      | cs => (readItems? n cs).map fun r => (.array r.1, r.2)
    | '\x7b' :: cs =>
      match skipSpace cs with
      | '\x7d' :: cs => some (.object [], cs)
      | cs => (readFields? n cs).map fun r => (.object r.1, r.2)
    | 'n' :: _ => (word? ['n', 'u', 'l', 'l'] cs).map fun r => (.null, r)
    | 't' :: _ => (word? ['t', 'r', 'u', 'e'] cs).map fun r => (.bool true, r)
    | 'f' :: _ => (word? ['f', 'a', 'l', 's', 'e'] cs).map fun r => (.bool false, r)
    | _ => (readNumber? cs).map fun r => (.number r.1, r.2)

/-- The items of an array and its closing bracket. -/
def readItems? : Nat → List Char → Option (List Json × List Char)
  | 0, _ => none
  | n + 1, cs =>
    match readValue? n cs with
    | none => none
    | some (j, cs) =>
      match skipSpace cs with
      | ',' :: cs => (readItems? n (skipSpace cs)).map fun r => (j :: r.1, r.2)
      | ']' :: cs => some ([j], cs)
      | _ => none

/-- The fields of an object and its closing brace. -/
def readFields? : Nat → List Char → Option (List (List Char × Json) × List Char)
  | 0, _ => none
  | n + 1, cs =>
    match cs with
    | '"' :: cs =>
      match readString? [] cs with
      | none => none
      | some (key, cs) =>
        match skipSpace cs with
        | ':' :: cs =>
          match readValue? n (skipSpace cs) with
          | none => none
          | some (j, cs) =>
            match skipSpace cs with
            | ',' :: cs => (readFields? n (skipSpace cs)).map fun r => ((key, j) :: r.1, r.2)
            | '\x7d' :: cs => some ([(key, j)], cs)
            | _ => none
        | _ => none
    | _ => none

end

/-- Reads a text that holds one value and blanks. -/
def parse? (text : String) : Option Json :=
  match readValue? (text.toList.length + 1) (skipSpace text.toList) with
  | some (j, rest) => if (skipSpace rest).isEmpty then some j else none
  | none => none

end Json

end YangSchema
