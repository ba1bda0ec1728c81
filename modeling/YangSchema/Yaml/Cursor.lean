/-!
# Places in a YAML text

A cursor is a place in a text: what is still to be read, and where that is. The end of a text counts
as the character `endMark`, and so does this character itself.

`skipBlanks`, `skipChars` and `skipBreak` move it on; only the last two say whether anything but
blanks stands before it in its line.
-/

namespace YangSchema.Yaml

/-- The character that stands for the end of a text. -/
def endMark : Char := '\x00'

/-- Whether a character is a blank inside a line. -/
def isBlank (c : Char) : Bool := c == ' ' || c == '\t'

/-- Whether a character ends a line. -/
def isBreak (c : Char) : Bool := c == '\n' || c == '\r'

/-- Whether a character ends a line or the text. -/
def isLineEnd (c : Char) : Bool := isBreak c || c == endMark

/-- Whether a character ends a word. -/
def isGap (c : Char) : Bool := isBlank c || isLineEnd c

/-- Whether a character has a meaning of its own inside brackets and braces. -/
def isFlowSign (c : Char) : Bool := c ∈ [',', '[', ']', '\x7b', '\x7d']

/-- A place in a text. -/
structure Cursor where
  rest : List Char
  /-- How many characters stand before it. -/
  index : Nat
  line : Nat
  column : Nat
  /-- Whether only blanks stand before it in its line. -/
  isLeading : Bool
  deriving Repr, DecidableEq

namespace Cursor

/-- The beginning of a text. -/
def start (text : String) : Cursor := ⟨text.toList.takeWhile (· != endMark), 0, 0, 0, true⟩

/-- The character `n` places on. -/
def peek (c : Cursor) (n : Nat) : Char := c.rest.getD n endMark

/-- The character that comes next. -/
def head (c : Cursor) : Char := c.peek 0

/-- Whether the text is at its end. -/
def atEnd (c : Cursor) : Bool := c.head == endMark

/-- Moves on over `n` blanks. -/
def skipBlanks (c : Cursor) (n : Nat) : Cursor :=
  ⟨c.rest.drop n, c.index + n, c.line, c.column + n, c.isLeading⟩

/-- Moves on over `n` characters of a line. -/
def skipChars (c : Cursor) (n : Nat) : Cursor :=
  ⟨c.rest.drop n, c.index + n, c.line, c.column + n, c.isLeading && n == 0⟩

/-- Moves on over a line break. -/
def skipBreak (c : Cursor) : Cursor :=
  match c.rest with
  | '\r' :: '\n' :: rest => ⟨rest, c.index + 2, c.line + 1, 0, true⟩
  | x :: rest => if isBreak x then ⟨rest, c.index + 1, c.line + 1, 0, true⟩ else c
  | [] => c

/-- Reads the characters of a line up to the first that is not of a kind. -/
def span (c : Cursor) (isOfKind : Char → Bool) : List Char × Cursor :=
  let word := c.rest.takeWhile isOfKind
  (word, c.skipChars word.length)

/-- Moves on to the end of the line. -/
def skipLine (c : Cursor) : Cursor := (c.span fun x => !isLineEnd x).2

/-- Whether three dashes or three dots stand alone at the beginning of a line. -/
def atMarker (c : Cursor) (sign : Char) : Bool :=
  c.column == 0 && c.peek 0 == sign && c.peek 1 == sign && c.peek 2 == sign && isGap (c.peek 3)

/-- Whether the beginning or the end of a document is marked here. -/
def atDocumentMarker (c : Cursor) : Bool := c.atMarker '-' || c.atMarker '.'

/-- Moves on over blanks and over the comment behind them; gives the blanks. Without a blank in
front there is no comment. `tabs` says whether tabs are blanks here. -/
def skipRest? (c : Cursor) (tabs : Bool) : Option (List Char × Cursor) :=
  let blanks := c.rest.takeWhile fun x => x == ' ' || (tabs && x == '\t')
  let c := c.skipBlanks blanks.length
  if c.head == '#' then if blanks.isEmpty then none else some (blanks, c.skipLine)
  else some (blanks, c)

end Cursor

end YangSchema.Yaml
