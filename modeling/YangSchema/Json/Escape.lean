import YangSchema.Text.Digits

/-!
# Texts inside JSON strings

Between the quotes of a JSON string a text is written in escaped form. `escape` writes a quote and
a backslash behind a backslash, the five control characters that have a letter of their own by that
letter, other control characters by number, and everything else as it is. `unescape?` reads every
escaped form; a number that is half of a pair must have its other half behind it.
-/

namespace YangSchema

namespace Json

/-- How one character is written. -/
def escapeChar (c : Char) : List Char :=
  if c = '"' then ['\\', '"']
  else if c = '\\' then ['\\', '\\']
  else if c = '\x08' then ['\\', 'b']
  else if c = '\t' then ['\\', 't']
  else if c = '\n' then ['\\', 'n']
  else if c = '\x0c' then ['\\', 'f']
  else if c = '\r' then ['\\', 'r']
  else if c.toNat < 32 then
    ['\\', 'u', '0', '0', Nat.digitChar (c.toNat / 16), Nat.digitChar (c.toNat % 16)]
  else [c]

/-- The escaped form of a text. -/
def escape (cs : List Char) : List Char := cs.flatMap escapeChar

/-- The value of four hexadecimal digits. -/
def hexQuad? (a b c d : Char) : Option Nat := do
  let a ← Text.hexValue? a
  let b ← Text.hexValue? b
  let c ← Text.hexValue? c
  let d ← Text.hexValue? d
  return ((a * 16 + b) * 16 + c) * 16 + d

/-- The character that a letter stands for behind a backslash. -/
def escapedLetter? (c : Char) : Option Char :=
  if c = '"' ∨ c = '\\' ∨ c = '/' then some c
  else if c = 'b' then some '\x08'
  else if c = 't' then some '\t'
  else if c = 'n' then some '\n'
  else if c = 'f' then some '\x0c'
  else if c = 'r' then some '\r'
  else none

/-- Whether a number is the first half of a pair that stands for one character. -/
def isHighHalf (n : Nat) : Bool := 0xD800 ≤ n && n ≤ 0xDBFF

/-- Whether a number is the second half of a pair that stands for one character. -/
def isLowHalf (n : Nat) : Bool := 0xDC00 ≤ n && n ≤ 0xDFFF

/-- The text of an escaped form. -/
def unescape? : List Char → Option (List Char)
  | [] => some []
  | '\\' :: 'u' :: a :: b :: c :: d :: '\\' :: 'u' :: a' :: b' :: c' :: d' :: rest =>
    match hexQuad? a b c d with
    | none => none
    | some n =>
      if isHighHalf n then
        match hexQuad? a' b' c' d' with
        | none => none
        | some m =>
          if isLowHalf m then
            (unescape? rest).map
              (Char.ofNat (0x10000 + (n - 0xD800) * 0x400 + (m - 0xDC00)) :: ·)
          else none
      else if isLowHalf n then none
      else (unescape? ('\\' :: 'u' :: a' :: b' :: c' :: d' :: rest)).map (Char.ofNat n :: ·)
  | '\\' :: 'u' :: a :: b :: c :: d :: rest =>
    match hexQuad? a b c d with
    | none => none
    | some n =>
      if isHighHalf n || isLowHalf n then none else (unescape? rest).map (Char.ofNat n :: ·)
  | '\\' :: c :: rest =>
    match escapedLetter? c with
    | none => none
    | some x => (unescape? rest).map (x :: ·)
  | c :: rest => if c = '\\' then none else (unescape? rest).map (c :: ·)

end Json

end YangSchema
