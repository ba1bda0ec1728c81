import YangSchema.Binary64
import YangSchema.Json5.Name
import YangSchema.Settings.Value

/-!
# Reading JSON5

`Json5.parse?` reads a document: one value with blanks and comments around it and between its parts.
Beyond JSON, strings can stand in single quotes, keys can be names, a comma can stand behind the
last item, and numbers can be hexadecimal, begin or end with a point, and have a plus sign.

A number without point and exponent is an integer of 64 bits, one of 32 bits if it is hexadecimal,
which has no sign then. Every other number must be finite unless it is a word for one that is not.
-/

namespace YangSchema.Json5

/-! ## Blanks and comments -/

/-- Whether a character ends a line. -/
def isLineEnd (c : Char) : Bool := c == '\n' || c == '\r' || c == '\u2028' || c == '\u2029'

/-- Whether a character is a blank. -/
def isSpace (c : Char) : Bool :=
  let n := c.toNat
  isLineEnd c || n == 9 || n == 11 || n == 12 || n == 0x20 || n == 0xA0 || n == 0x1680
    || (0x2000 ≤ n && n ≤ 0x200A) || n == 0x202F || n == 0x205F || n == 0x3000 || n == 0xFEFF

/-- What is behind the end of a comment between `/*` and `*/`. -/
def behindComment? : List Char → Option (List Char)
  | [] => none
  | '*' :: '/' :: rest => some rest
  | _ :: rest => behindComment? rest

/-- Drops blanks and comments; a comment without end is none. -/
def skipFrom : (fuel : Nat) → List Char → List Char
  | 0, cs => cs
  | fuel + 1, '/' :: '/' :: rest => skipFrom fuel (rest.dropWhile fun c => !isLineEnd c)
  | fuel + 1, '/' :: '*' :: rest =>
    match behindComment? rest with
    | some rest => skipFrom fuel rest
    | none => '/' :: '*' :: rest
  | fuel + 1, c :: rest => if isSpace c then skipFrom fuel rest else c :: rest
  | _, [] => []

/-- Drops blanks and comments. -/
def skip (cs : List Char) : List Char := skipFrom cs.length cs

/-! ## Texts -/

/-- A part of a text: a character, or a number of 16 bits that is one or half of one. -/
inductive Piece where
  | char (c : Char)
  | code (n : Nat)
  deriving Repr, DecidableEq

/-- Whether a number is the first half of a character. -/
def isHighHalf (n : Nat) : Bool := 0xD800 ≤ n && n ≤ 0xDBFF

/-- Whether a number is the second half of a character. -/
def isLowHalf (n : Nat) : Bool := 0xDC00 ≤ n && n ≤ 0xDFFF

/-- The text of its parts; every first half must have the second one behind it. -/
def textOf? : List Piece → Option (List Char)
  | [] => some []
  | .char c :: rest => (textOf? rest).map (c :: ·)
  | .code n :: .code m :: rest =>
    if isHighHalf n then
      if isLowHalf m then
        (textOf? rest).map (Char.ofNat (0x10000 + (n - 0xD800) * 0x400 + (m - 0xDC00)) :: ·)
      else none
    else if isLowHalf n then none
    else (textOf? (.code m :: rest)).map (Char.ofNat n :: ·)
  | .code n :: rest =>
    if isHighHalf n || isLowHalf n then none else (textOf? rest).map (Char.ofNat n :: ·)

/-- The character that a character stands for behind a backslash, unless it is a digit. -/
def escapedChar? (c : Char) : Option Char :=
  if c = 'b' then some '\x08'
  else if c = 'f' then some '\x0c'
  else if c = 'n' then some '\n'
  else if c = 'r' then some '\r'
  else if c = 't' then some '\t'
  else if c = 'v' then some '\x0b'
  else if c = '0' then some '\x00'
  else if Text.isDigit c || c == 'x' || c == 'u' then none
  else some c

/-- Puts a part in front of those that have been read, if all are there. -/
def push (p : Option Piece) (rest : Option (List Piece × List Char)) :
    Option (List Piece × List Char) :=
  match p, rest with
  | some p, some (ps, rest) => some (p :: ps, rest)
  | _, _ => none

/-- Reads a string behind its opening quote. -/
def stringPieces? (quote : Char) : List Char → Option (List Piece × List Char)
  | [] => none
  | '\\' :: 'x' :: a :: b :: rest =>
    push ((Text.hexNumber? [a, b]).map .code) (stringPieces? quote rest)
  | '\\' :: 'u' :: a :: b :: c :: d :: rest =>
    push ((Text.hexNumber? [a, b, c, d]).map .code) (stringPieces? quote rest)
  | '\\' :: '\r' :: '\n' :: rest => stringPieces? quote rest
  | '\\' :: c :: rest =>
    if isLineEnd c then stringPieces? quote rest
    else push ((escapedChar? c).map .char) (stringPieces? quote rest)
  | c :: rest =>
    if c = quote then some ([], rest)
    else if c = '\\' ∨ c = '\n' ∨ c = '\r' then none
    else push (some (.char c)) (stringPieces? quote rest)

/-- Reads the characters of a name; `isBegun` says that it has some already. -/
def namePieces? (isBegun : Bool) : List Char → Option (List Piece × List Char)
  | '\\' :: 'u' :: a :: b :: c :: d :: rest =>
    match Text.hexNumber? [a, b, c, d] with
    | some n => push (some (.code n)) (namePieces? true rest)
    | none => if isBegun then some ([], '\\' :: 'u' :: a :: b :: c :: d :: rest) else none
  | c :: rest =>
    if beginsName c || (isBegun && isNameChar c) then push (some (.char c)) (namePieces? true rest)
    else if isBegun then some ([], c :: rest)
    else none
  | [] => if isBegun then some ([], []) else none

/-- Reads a string. -/
def string? : List Char → Option (String × List Char)
  | c :: rest => do
    if c = '"' ∨ c = '\'' then
      let (pieces, rest) ← stringPieces? c rest
      return (String.ofList (← textOf? pieces), rest)
    else none
  | [] => none

/-- Reads a key: a string or a name. -/
def key? (cs : List Char) : Option (String × List Char) :=
  match namePieces? false cs with
  | some (pieces, rest) => (textOf? pieces).map fun name => (String.ofList name, rest)
  | none => string? cs

/-! ## Numbers -/

/-- Splits off the exponent in front. -/
def spanExponent (cs : List Char) : List Char × List Char :=
  let (mark, rest) := match cs with
    | c :: s :: rest =>
      if c = 'e' ∨ c = 'E' then
        if s = '+' ∨ s = '-' then ([c, s], rest) else ([c], s :: rest)
      else ([], cs)
    | _ => ([], cs)
  let (digits, rest) := rest.span Text.isDigit
  if mark.isEmpty || digits.isEmpty then ([], cs) else (mark ++ digits, rest)

/-- Splits off the whole part of a number. -/
def spanWhole : List Char → List Char × List Char
  | '0' :: rest => (['0'], rest)
  | cs => cs.span Text.isDigit

/-- Splits off a decimal number without sign; its part is empty if there is none. -/
def spanDecimal (cs : List Char) : List Char × List Char :=
  let (whole, rest) := spanWhole cs
  let (fraction, rest) := match rest with
    | '.' :: rest =>
      let (digits, behind) := rest.span Text.isDigit
      if whole.isEmpty && digits.isEmpty then ([], '.' :: rest) else ('.' :: digits, behind)
    | rest => ([], rest)
  if whole.isEmpty && fraction.isEmpty then ([], cs)
  else
    let (exponent, rest) := spanExponent rest
    (whole ++ fraction ++ exponent, rest)

/-- Splits off a number without sign; its part is empty if there is none. -/
def spanNumber (cs : List Char) : List Char × List Char :=
  match cs with
  | '0' :: x :: rest =>
    let (digits, behind) := rest.span fun c => (Text.hexValue? c).isSome
    if (x = 'x' ∨ x = 'X') ∧ !digits.isEmpty then ('0' :: x :: digits, behind) else spanDecimal cs
  | cs =>
    let word := ["Infinity", "NaN"].find? fun w => w.toList.isPrefixOf cs
    match word with
    | some w => (w.toList, cs.drop w.length)
    | none => spanDecimal cs

/-- The digits of a hexadecimal number. -/
def hexDigits? : List Char → Option (List Char)
  | '0' :: x :: digits => if x = 'x' ∨ x = 'X' then some digits else none
  | _ => none

/-- The value of a written number. -/
def numberValue? (written : List Char) : Option SettingValue :=
  let word := String.ofList written
  if word = "Infinity" ∨ word = "-Infinity" then some (.real (.infinite (word = "-Infinity")))
  else if word = "NaN" ∨ word = "-NaN" then some (.real .nan)
  else
    match hexDigits? written with
    | some digits =>
      ((Text.hexNumber? digits).filter (· ≤ Text.wordMax 32)).map fun n => .integer n
    | none =>
      if written.any fun c => c == '.' || c == 'e' || c == 'E' then
        match Binary64.ofString? word with
        | some (.finite negative m q) => some (.real (.finite negative m q))
        | _ => none
      else (Text.signed? (Text.signedMin 64) (Text.signedMax 64) word).map .integer

/-- Reads a number. -/
def number? (cs : List Char) : Option (SettingValue × List Char) :=
  let (sign, cs) := match cs with
    | '+' :: cs => (['+'], cs)
    | '-' :: cs => (['-'], cs)
    | cs => ([], cs)
  let (written, rest) := spanNumber cs
  if written.isEmpty then none
  else (numberValue? (sign ++ written)).map fun v => (v, rest)

/-! ## Values -/

/-- Reads a word that stands for a value. -/
def word? (cs : List Char) : Option (SettingValue × List Char) :=
  let words : List (String × SettingValue) :=
    [("null", .absent), ("true", .bool true), ("false", .bool false)]
  (words.find? fun w => w.1.toList.isPrefixOf cs).map fun w => (w.2, cs.drop w.1.length)

mutual

/-- Reads a value. -/
def value? : (fuel : Nat) → List Char → Option (SettingValue × List Char)
  | 0, _ => none
  | fuel + 1, cs =>
    match cs with
    | '[' :: cs =>
      match skip cs with
      | ']' :: rest => some (.list [], rest)
      | cs => (items? fuel cs).map fun p => (.list p.1, p.2)
    | '\x7b' :: cs =>
      match skip cs with
      | '\x7d' :: rest => some (.table [], rest)
      | cs => (fields? fuel cs).map fun p => (.table p.1, p.2)
    | cs =>
      match string? cs with
      | some (text, rest) => some (.text text, rest)
      | none => (word? cs).or (number? cs)

/-- Reads the items of an array and its closing bracket. -/
def items? : (fuel : Nat) → List Char → Option (List SettingValue × List Char)
  | 0, _ => none
  | fuel + 1, cs => do
    let (v, rest) ← value? fuel cs
    match skip rest with
    | ']' :: rest => return ([v], rest)
    | ',' :: rest =>
      match skip rest with
      | ']' :: rest => return ([v], rest)
      | rest =>
        let (vs, rest) ← items? fuel rest
        return (v :: vs, rest)
    | _ => none

/-- Reads the fields of an object and its closing brace. Of several fields with the same key only
the last counts. -/
def fields? : (fuel : Nat) → List Char → Option (List (String × SettingValue) × List Char)
  | 0, _ => none
  | fuel + 1, cs => do
    let (key, rest) ← key? cs
    match skip rest with
    | ':' :: rest =>
      let (v, rest) ← value? fuel (skip rest)
      match skip rest with
      | '\x7d' :: rest => return ([(key, v)], rest)
      | ',' :: rest =>
        match skip rest with
        | '\x7d' :: rest => return ([(key, v)], rest)
        | rest =>
          let (es, rest) ← fields? fuel rest
          return (SettingValue.consEntry key v es, rest)
      | _ => none
    | _ => none

end

/-- Reads a document: the keys of its object with their values. -/
def parse? (text : String) : Option (List (String × SettingValue)) :=
  match value? (text.toList.length + 1) (skip text.toList) with
  | some (.table es, rest) => if (skip rest).isEmpty then some es else none
  | _ => none

end YangSchema.Json5
