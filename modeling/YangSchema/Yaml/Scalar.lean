import YangSchema.Text.Digits
import YangSchema.Yaml.Cursor

/-!
# Texts in YAML

A text is written in one of four ways: plain, in single quotes, in double quotes with escaped forms,
or as a block of lines that are indented further than what is around it.

A line break in one of the first three is a blank, and further ones behind it are line breaks. In a
block each line break counts, unless the block is folded: then those between lines that do not begin
with a blank are as in the other ways.

Every reader takes the column to which what is around the text is indented, -1 if nothing is.
-/

namespace YangSchema.Yaml

/-! ## Gaps -/

/-- What stands between two words: blanks of a line, or line breaks, of which the first may be taken
out by a backslash. -/
structure Gap where
  blanks : List Char
  /-- Whether there is a first line break. -/
  isBroken : Bool
  /-- How many line breaks follow it. -/
  breaks : Nat
  deriving Repr, DecidableEq

namespace Gap

/-- Nothing between two words. -/
def none : Gap := ⟨[], false, 0⟩

/-- The text of a gap; `isLines` says that it goes over the end of a line. -/
def text (g : Gap) (isLines : Bool) : List Char :=
  if !isLines then g.blanks
  else if g.isBroken && g.breaks == 0 then [' ']
  else List.replicate g.breaks '\n'

end Gap

/-! ## Texts in quotes -/

/-- The character that a letter stands for behind a backslash. -/
def escapedLetter? (c : Char) : Option Char :=
  if c ∈ [' ', '"', '/', '\\', '\t'] then some c
  else if c = '0' then some '\x00'
  else if c = 'a' then some '\x07'
  else if c = 'b' then some '\x08'
  else if c = 't' then some '\t'
  else if c = 'n' then some '\n'
  else if c = 'v' then some '\x0b'
  else if c = 'f' then some '\x0c'
  else if c = 'r' then some '\r'
  else if c = 'e' then some '\x1b'
  else if c = 'N' then some '\u0085'
  else if c = '_' then some '\u00a0'
  else if c = 'L' then some '\u2028'
  else if c = 'P' then some '\u2029'
  else none

/-- How many hexadecimal digits follow a letter behind a backslash. -/
def escapeWidth (c : Char) : Nat :=
  if c = 'x' then 2 else if c = 'u' then 4 else if c = 'U' then 8 else 0

/-- Reads an escaped form from its backslash on. -/
def escape? (c : Cursor) : Option (Char × Cursor) :=
  let width := escapeWidth (c.peek 1)
  if width = 0 then (escapedLetter? (c.peek 1)).map fun x => (x, c.skipChars 2)
  else
    let digits := (c.rest.drop 2).take width
    if digits.length = width then
      ((Text.hexNumber? digits).bind Text.charOfNumber?).map fun x => (x, c.skipChars (2 + width))
    else none

/-- Reads the characters up to a gap or the closing quote; says whether a backslash takes out the
line break that follows. -/
def quotedWord? (single : Bool) : (fuel : Nat) → Cursor → Option (List Char × Bool × Cursor)
  | 0, _ => none
  | fuel + 1, c =>
    let x := c.head
    if isGap x then some ([], false, c)
    else if single && x == '\'' && c.peek 1 == '\'' then
      (quotedWord? single fuel (c.skipChars 2)).map fun r => ('\'' :: r.1, r.2)
    else if x == (if single then '\'' else '"') then some ([], false, c)
    else if !single && x == '\\' then
      if isBreak (c.peek 1) then some ([], true, (c.skipChars 1).skipBreak)
      else do
        let (y, c) ← escape? c
        let (word, taken, c) ← quotedWord? single fuel c
        return (y :: word, taken, c)
    else (quotedWord? single fuel (c.skipChars 1)).map fun r => (x :: r.1, r.2)

/-- Reads a gap between quotes; `isLines` says that a line has ended. -/
def quotedGap? (indent : Int) : (fuel : Nat) → (isLines : Bool) → Gap → Cursor →
    Option (Bool × Gap × Cursor)
  | 0, _, _, _ => none
  | fuel + 1, isLines, g, c =>
    let x := c.head
    if isBlank x then
      if !isLines then
        quotedGap? indent fuel false { g with blanks := g.blanks ++ [x] } (c.skipBlanks 1)
      else if x == '\t' && (c.column : Int) < indent then none
      else quotedGap? indent fuel true g (c.skipBlanks 1)
    else if isBreak x then
      if isLines then quotedGap? indent fuel true { g with breaks := g.breaks + 1 } c.skipBreak
      else quotedGap? indent fuel true ⟨[], true, g.breaks⟩ c.skipBreak
    else some (isLines, g, c)

/-- Reads a text behind its opening quote, and the quote that closes it. -/
def quotedBody? (single : Bool) (indent : Int) : (fuel : Nat) → Cursor → Option (List Char × Cursor)
  | 0, _ => none
  | fuel + 1, c =>
    if c.atDocumentMarker || c.atEnd || (c.column : Int) < indent then none
    else do
      let (word, taken, c) ← quotedWord? single (c.rest.length + 1) c
      if !taken && !isGap c.head then return (word, c.skipChars 1)
      if taken && c.head == (if single then '\'' else '"') then return (word, c.skipChars 1)
      let (isLines, gap, c) ← quotedGap? indent (c.rest.length + 1) taken .none c
      let (body, c) ← quotedBody? single indent fuel c
      return (word ++ gap.text isLines ++ body, c)

/-- Reads a text in quotes. What follows it in its line must end the line or be a sign that can
follow a key or an item. -/
def quoted? (single : Bool) (indent : Int) (inFlow : Bool) (start : Cursor) :
    Option (List Char × Cursor) := do
  let (body, c) ← quotedBody? single indent (start.rest.length + 1) (start.skipChars 1)
  let (_, c) ← c.skipRest? true
  let x := c.head
  if isLineEnd x || (inFlow && x ∈ [',', '\x7d', ']', ':'])
      || (x == ':' && start.line == c.line) then return (body, c)
  else none

/-! ## Plain texts -/

/-- Whether the next character can stand in a plain text. -/
def canBePlain (inFlow : Bool) (c : Cursor) : Bool :=
  if c.head == ':' && (isGap (c.peek 1) || (inFlow && isFlowSign (c.peek 1))) then false
  else !(inFlow && isFlowSign c.head)

/-- Reads the characters of a plain text up to a gap or its end. -/
def plainWord (inFlow : Bool) : (fuel : Nat) → Cursor → List Char × Cursor
  | 0, c => ([], c)
  | fuel + 1, c =>
    if isGap c.head || !canBePlain inFlow c then ([], c)
    else
      let (word, behind) := plainWord inFlow fuel (c.skipChars 1)
      (c.head :: word, behind)

/-- Reads a gap in a plain text whose lines begin at least at column `least`. -/
def plainGap? (least : Int) : (fuel : Nat) → Gap → Cursor → Option (Gap × Cursor)
  | 0, _, _ => none
  | fuel + 1, g, c =>
    let x := c.head
    if isBlank x then
      if !c.isLeading then
        plainGap? least fuel { g with blanks := g.blanks ++ [x] } (c.skipBlanks 1)
      else if (c.column : Int) < least && x == '\t' then do
        let (_, c) ← c.skipRest? true
        if isLineEnd c.head then plainGap? least fuel g c else none
      else plainGap? least fuel g (c.skipBlanks 1)
    else if isBreak x then
      if c.isLeading then plainGap? least fuel { g with breaks := g.breaks + 1 } c.skipBreak
      else plainGap? least fuel ⟨[], true, g.breaks⟩ c.skipBreak
    else some (g, c)

/-- Reads a plain text behind a gap. -/
def plainFrom? (least : Int) (inFlow : Bool) : (fuel : Nat) → Gap → Cursor →
    Option (List Char × Cursor)
  | 0, _, _ => none
  | fuel + 1, g, c =>
    if c.atDocumentMarker || c.head == '#' then some ([], c)
    else if inFlow && c.head == '-' && isFlowSign (c.peek 1) then none
    else
      let front := g.text c.isLeading
      let (word, c) := plainWord inFlow (c.rest.length + 1) c
      let g := if word.isEmpty then g else .none
      let text := if word.isEmpty then [] else front ++ word
      if !(isBlank c.head || isBreak c.head) then some (text, c)
      else do
        let (g, c) ← plainGap? least (c.rest.length + 1) g c
        if !inFlow && (c.column : Int) < least then return (text, c)
        let (more, c) ← plainFrom? least inFlow fuel g c
        return (text ++ more, c)

/-- Reads a plain text. -/
def plain? (indent : Int) (inFlow : Bool) (start : Cursor) : Option (List Char × Cursor) := do
  if inFlow && (start.column : Int) < indent + 1 then none
  let (text, c) ← plainFrom? (indent + 1) inFlow (start.rest.length + 1) .none start
  if text.isEmpty then none else return (text, c)

/-! ## Blocks -/

/-- What becomes of the line breaks at the end of a block. -/
inductive Chomping where
  | strip
  | clip
  | keep
  deriving Repr, DecidableEq

/-- The way of chomping that a sign stands for. -/
def chompingOf? (c : Char) : Option Chomping :=
  if c = '+' then some .keep else if c = '-' then some .strip else none

/-- The indentation that a digit stands for, 0 if it is none. -/
def incrementOf (c : Char) : Nat := if Text.isDigit c then Text.digitValue c else 0

/-- Reads the head of a block: how it is chomped and how far it is indented, in either order. -/
def blockHead? (c : Cursor) : Option (Chomping × Nat × Cursor) :=
  match chompingOf? c.head with
  | some chomping =>
    let c := c.skipChars 1
    if c.head = '0' then none
    else
      let increment := incrementOf c.head
      some (chomping, increment, c.skipChars (if increment = 0 then 0 else 1))
  | none =>
    if c.head = '0' then none
    else
      let increment := incrementOf c.head
      let c := c.skipChars (if increment = 0 then 0 else 1)
      match if increment = 0 then none else chompingOf? c.head with
      | some chomping => some (chomping, increment, c.skipChars 1)
      | none => some (.clip, increment, c)

/-- Moves on over indentation and empty lines; gives how many of these there are. -/
def skipIndent (indent : Nat) : (fuel : Nat) → (breaks : Nat) → Cursor → Nat × Cursor
  | 0, breaks, c => (breaks, c)
  | fuel + 1, breaks, c =>
    let spaces := ((c.rest.takeWhile (· == ' ')).take (indent - c.column)).length
    let c := c.skipBlanks spaces
    if isBreak c.head then skipIndent indent fuel (breaks + 1) c.skipBreak else (breaks, c)

/-- Moves on over the indentation of the first line and over empty lines before it; gives the
greatest indentation of these lines and how many are empty. -/
def skipFirstIndent : (fuel : Nat) → (indent breaks : Nat) → Cursor → Nat × Nat × Cursor
  | 0, indent, breaks, c => (indent, breaks, c)
  | fuel + 1, indent, breaks, c =>
    let c := c.skipBlanks (c.rest.takeWhile (· == ' ')).length
    let indent := max indent c.column
    if isBreak c.head then skipFirstIndent fuel indent (breaks + 1) c.skipBreak
    else (indent, breaks, c)

/-- What has been read of a block: its text, whether a line break follows it, how many empty lines
follow this one, and whether the last line begins with a blank. -/
structure BlockReading where
  text : List Char
  isBroken : Bool
  breaks : Nat
  isBlank : Bool

namespace BlockReading

/-- What stands between the lines that have been read and a line. -/
def joint (b : BlockReading) (literal isBlank : Bool) : List Char :=
  if !literal && b.isBroken && !b.isBlank && !isBlank then
    if b.breaks = 0 then [' '] else List.replicate b.breaks '\n'
  else List.replicate (b.breaks + if b.isBroken then 1 else 0) '\n'

end BlockReading

/-- Reads the lines of a block from the first character of a line on. -/
def blockLines (literal : Bool) (indent : Nat) : (fuel : Nat) → BlockReading → Cursor →
    BlockReading × Cursor
  | 0, b, c => (b, c)
  | fuel + 1, b, c =>
    if c.column != indent || c.atEnd || (indent == 0 && c.atMarker '.') then (b, c)
    else
      let blank := Yaml.isBlank c.head
      let (line, behind) := c.span fun x => !isLineEnd x
      let text := b.text ++ b.joint literal blank ++ line
      if behind.atEnd then (⟨text, false, 0, blank⟩, behind)
      else
        let next := behind.skipBreak
        let (breaks, next) := skipIndent indent (next.rest.length + 1) 0 next
        blockLines literal indent fuel ⟨text, true, breaks, blank⟩ next

/-- The text of a block without content at the end of a text; `isBroken` says that its head ends a
line. -/
def emptyBlock (chomping : Chomping) (isBroken : Bool) (breaks : Nat) : List Char :=
  if chomping = .strip ∨ !isBroken then []
  else if chomping = .clip then ['\n']
  else List.replicate (max 1 breaks) '\n'

/-- The text of a block that has been read, with the line breaks at its end. -/
def chomped (chomping : Chomping) (indent : Nat) (b : BlockReading) (c : Cursor) : List Char :=
  let ending := if chomping = .strip then []
    else (if b.isBroken then ['\n'] else [])
      ++ if c.atEnd && max indent 1 ≤ c.column then ['\n'] else []
  b.text ++ ending ++ if chomping = .keep then List.replicate b.breaks '\n' else []

/-- Reads a block from its sign on. -/
def block? (literal : Bool) (indent : Int) (start : Cursor) : Option (List Char × Cursor) := do
  let (chomping, increment, c) ← blockHead? (start.skipChars 1)
  let (_, c) ← c.skipRest? true
  if !isLineEnd c.head then none
  let c := c.skipBreak
  if c.head == '\t' then none
  let fuel := c.rest.length + 1
  let (width, breaks, c) :=
    if increment = 0 then
      let (found, breaks, c) := skipFirstIndent fuel 0 0 c
      let width := max found (indent + 1).toNat
      ((if 0 < indent then max width 1 else width), breaks, c)
    else
      let width := (max indent 0).toNat + increment
      (width, skipIndent width fuel 0 c)
  if c.atEnd then return (emptyBlock chomping (c.line != start.line) breaks, c)
  if c.column < width && indent < c.column then none
  let (b, c) := blockLines literal width fuel ⟨[], false, breaks, false⟩ c
  return (chomped chomping width b c, c)

end YangSchema.Yaml
