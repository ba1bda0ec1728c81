import YangSchema.Pattern.Property
import YangSchema.Text.Blank
import YangSchema.Text.Digits

/-!
# Escapes in patterns

A backslash starts an escape: a character given by its code point, a set of characters, an
assertion, or a character that would otherwise have a meaning of its own. This module reads what
follows the backslash.

In a *verbose* pattern blanks may stand between the parts, and `#` starts a comment up to the end of
the line. A pattern that is not *Unicode-aware* is about bytes: it must not name properties and not
match parts of a character, so it excludes nothing and names no byte from 128 on.
-/

namespace YangSchema

namespace Pattern

/-- How the text of a pattern is read. -/
structure Mode where
  verbose : Bool
  unicode : Bool
  deriving Repr, DecidableEq

/-- How a pattern starts. -/
def Mode.initial : Mode := ⟨false, true⟩

/-- Drops blanks and comments; `comment` says that a comment is being dropped. -/
def dropGap (comment : Bool) : List Char → List Char
  | [] => []
  | c :: cs =>
    if comment then dropGap (c != '\n') cs
    else if Text.isBlank c then dropGap false cs
    else if c = '#' then dropGap true cs
    else c :: cs

/-- Drops what may stand between the parts of a pattern. -/
def Mode.skip (m : Mode) (cs : List Char) : List Char := if m.verbose then dropGap false cs else cs

/-- What an escape, or a single character, stands for. -/
inductive Piece where
  /-- A character, which is greater than 127 and given as a byte if `wide`. -/
  | literal (c : Char) (wideByte : Bool)
  | assertion
  /-- Digits, blanks or word characters, or all others. -/
  | shorthand (negated : Bool)
  | property
  deriving Repr, DecidableEq

/-- Whether a piece is allowed in a mode. -/
def Piece.isAllowed (m : Mode) : Piece → Bool
  | .literal _ wideByte => m.unicode || !wideByte
  | .assertion => true
  | .shorthand negated => m.unicode || !negated
  | .property => m.unicode

/-! ## Code points -/

/-- A number of exactly `count` hexadecimal digits. -/
def hexDigits? (m : Mode) (value : Nat) : (count : Nat) → List Char → Option (Nat × List Char)
  | 0, cs => some (value, cs)
  | count + 1, cs =>
    match cs with
    | [] => none
    | c :: cs =>
      match Text.hexValue? c with
      | none => none
      | some d => hexDigits? m (value * 16 + d) count (m.skip cs)

/-- The digits up to a closing brace, whose gaps are dropped; `first` says that none was read. -/
def hexInBraces? (m : Mode) (first : Bool) (value : Nat) (fuel : Nat) (cs : List Char) :
    Option (Nat × List Char) :=
  match fuel with
  | 0 => none
  | fuel + 1 =>
    match m.skip cs with
    | [] => none
    | c :: cs =>
      if c = '\x7d' then (if first then none else some (value, cs))
      else
        match Text.hexValue? c with
        | none => none
        | some d => hexInBraces? m false (value * 16 + d) fuel cs

/-- A character given by its code point: in braces, or in `count` digits. -/
def codePoint? (m : Mode) (count : Nat) (cs : List Char) : Option (Piece × List Char) :=
  match m.skip cs with
  | [] => none
  | '\x7b' :: cs =>
    match hexInBraces? m true 0 (cs.length + 1) cs with
    | none => none
    | some (n, cs) => (Text.charOfNumber? n).map fun c => (.literal c false, cs)
  | cs =>
    match hexDigits? m 0 count cs with
    | none => none
    | some (n, cs) =>
      (Text.charOfNumber? n).map fun c => (.literal c (count == 2 && 128 ≤ n), cs)

/-! ## Properties -/

/-- The characters up to a closing brace, without gaps. -/
def textInBraces? (m : Mode) (acc : List Char) (fuel : Nat) (cs : List Char) :
    Option (List Char × List Char) :=
  match fuel with
  | 0 => none
  | fuel + 1 =>
    match m.skip cs with
    | [] => none
    | c :: cs =>
      if c = '\x7d' then some (acc.reverse, cs) else textInBraces? m (c :: acc) fuel cs

/-- A property: one letter, or a text in braces. -/
def property? (m : Mode) (cs : List Char) : Option (Piece × List Char) :=
  match m.skip cs with
  | [] => none
  | '\x7b' :: cs =>
    match textInBraces? m [] (cs.length + 1) cs with
    | none => none
    | some (text, cs) => if Property.isSet text then some (.property, cs) else none
  | c :: cs => if c != '\\' && Property.isName [c] then some (.property, cs) else none

/-! ## Word boundaries -/

/-- Whether a character may stand in the name of a special word boundary. -/
def isBoundaryLetter (c : Char) : Bool :=
  ('a' ≤ c && c ≤ 'z') || ('A' ≤ c && c ≤ 'Z') || c == '-'

/-- The name of a special word boundary and its closing brace, without gaps. -/
def boundaryName? (m : Mode) (acc : List Char) (fuel : Nat) (cs : List Char) :
    Option (String × List Char) :=
  match fuel with
  | 0 => none
  | fuel + 1 =>
    match cs with
    | [] => none
    | c :: cs =>
      if isBoundaryLetter c then boundaryName? m (c :: acc) fuel (m.skip cs)
      else if c = '\x7d' then some (String.ofList acc.reverse, cs)
      else none

/-- A word boundary. A brace behind it that starts with a letter or hyphen must name a special
one; another brace is left. -/
def boundary? (m : Mode) (cs : List Char) : Option (Piece × List Char) :=
  match cs with
  | '\x7b' :: inner =>
    match m.skip inner with
    | [] => none
    | c :: rest =>
      if isBoundaryLetter c then
        match boundaryName? m [] (inner.length + 1) (c :: rest) with
        | none => none
        | some (name, cs) =>
          if name ∈ ["start", "end", "start-half", "end-half"] then some (.assertion, cs) else none
      else some (.assertion, cs)
  | _ => some (.assertion, cs)

/-! ## All escapes -/

/-- Whether a character stands for itself behind a backslash: it is an ASCII character, no letter,
no digit and no angle bracket. -/
def standsForItself (c : Char) : Bool :=
  c.toNat < 128 && !c.isAlphanum && c != '<' && c != '>'

/-- What follows a backslash. -/
def escape? (m : Mode) : List Char → Option (Piece × List Char)
  | [] => none
  | c :: cs =>
    if c = 'x' then codePoint? m 2 cs
    else if c = 'u' then codePoint? m 4 cs
    else if c = 'U' then codePoint? m 8 cs
    else if c = 'p' ∨ c = 'P' then property? m cs
    else if c = 'd' ∨ c = 's' ∨ c = 'w' then some (.shorthand false, cs)
    else if c = 'D' ∨ c = 'S' ∨ c = 'W' then some (.shorthand true, cs)
    else if c = 'b' then boundary? m cs
    else if c = 'A' ∨ c = 'z' ∨ c = 'B' ∨ c = '<' ∨ c = '>' then some (.assertion, cs)
    else if c = 'a' then some (.literal '\x07' false, cs)
    else if c = 'f' then some (.literal '\x0c' false, cs)
    else if c = 't' then some (.literal '\t' false, cs)
    else if c = 'n' then some (.literal '\n' false, cs)
    else if c = 'r' then some (.literal '\r' false, cs)
    else if c = 'v' then some (.literal '\x0b' false, cs)
    else if standsForItself c then some (.literal c false, cs)
    else none

/-- An escape that is allowed in the mode. -/
def allowedEscape? (m : Mode) (cs : List Char) : Option (Piece × List Char) :=
  (escape? m cs).filter fun r => r.1.isAllowed m

end Pattern

end YangSchema
