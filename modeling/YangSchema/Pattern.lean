import YangSchema.Pattern.Class
import YangSchema.Text.Digits
import YangSchema.Text.Letters

/-!
# Patterns

A pattern restricts a string type by a regular expression. The library only tells whether an
expression is one; it does not match. `Pattern.isValid` reads the expression in its frame
`^(?:…)$` once from left to right, keeping the groups that are open, innermost first.

The parts of an expression may be nested 250 levels deep: a repetition, a group, a bracketed set, a
sequence of several parts and an alternation each count as one level.
-/

namespace YangSchema

namespace Pattern

/-- One part of a sequence: how deeply it is nested, and whether it may be repeated. -/
structure Part where
  nesting : Nat
  repeatable : Bool
  deriving Repr

/-- An alternation as far as it is read. -/
structure Choice where
  /-- The nesting of each finished branch. -/
  branches : List Nat
  /-- The parts of the current branch, latest first. -/
  parts : List Part
  deriving Repr

/-- An alternation of which nothing is read. -/
def Choice.empty : Choice := ⟨[], []⟩

/-- The nesting of an alternation. -/
def Choice.nesting (c : Choice) : Nat :=
  nestingOf (nestingOf (c.parts.map (·.nesting)) :: c.branches)

/-- Adds a part. -/
def Choice.add (c : Choice) (p : Part) : Choice := ⟨c.branches, p :: c.parts⟩

/-- Starts another branch. -/
def Choice.nextBranch (c : Choice) : Choice :=
  ⟨nestingOf (c.parts.map (·.nesting)) :: c.branches, []⟩

/-- Repeats the latest part. -/
def Choice.repeatLast? (c : Choice) : Option Choice :=
  match c.parts with
  | [] => none
  | p :: ps => if p.repeatable then some ⟨c.branches, ⟨1 + p.nesting, true⟩ :: ps⟩ else none

/-- A group whose parenthesis is still to come: what stands around it, and the mode to return to. -/
structure OpenGroup where
  around : Choice
  mode : Mode
  deriving Repr

/-- What has been read of a pattern. -/
structure State where
  mode : Mode
  /-- The names that groups have been given. -/
  names : List String
  inner : Choice
  outer : List OpenGroup
  deriving Repr

/-! ## Repetition -/

/-- Drops a question mark, which makes a repetition prefer fewer times. -/
def dropLazy : List Char → List Char
  | '?' :: cs => cs
  | cs => cs

/-- Digits with gaps between them. -/
def gappedDigits (m : Mode) (acc : List Char) (fuel : Nat) (cs : List Char) :
    List Char × List Char :=
  match fuel with
  | 0 => (acc.reverse, cs)
  | fuel + 1 =>
    match cs with
    | c :: rest =>
      if Text.isDigit c then gappedDigits m (c :: acc) fuel (m.skip rest)
      else (acc.reverse, cs)
    | [] => (acc.reverse, [])

/-- Drops blanks, in every mode. -/
def dropBlanks (m : Mode) (cs : List Char) : List Char := m.skip (cs.dropWhile Text.isBlank)

/-- A number of times, with blanks around it: a word of 32 bits, if there are digits. -/
def times (m : Mode) (cs : List Char) : Option Nat × List Char :=
  let (digits, rest) := gappedDigits m [] (cs.length + 1) (cs.dropWhile Text.isBlank)
  let value := Text.digitsValue 0 digits
  (if digits.isEmpty || Text.wordMax 32 < value then none else some value, dropBlanks m rest)

/-- A counted repetition behind its opening brace: one number, or a least number and a comma and
perhaps a greatest number that is no smaller. -/
def counted? (m : Mode) (cs : List Char) : Option (List Char) :=
  match times m (m.skip cs) with
  | (some low, ',' :: cs) =>
    match m.skip cs with
    | '\x7d' :: cs => some (dropLazy (m.skip cs))
    | cs =>
      match times m cs with
      | (some high, '\x7d' :: cs) => if low ≤ high then some (dropLazy (m.skip cs)) else none
      | _ => none
  | (some _, '\x7d' :: cs) => some (dropLazy (m.skip cs))
  | _ => none

/-! ## Groups -/

/-- Whether a character may stand in the name of a group. -/
def isNameChar (first : Bool) (c : Char) : Bool :=
  if first then c == '_' || Text.isAlphabetic c
  else c == '_' || c == '.' || c == '[' || c == ']' || Text.isAlphabetic c || Text.isNumeric c

/-- The name of a group up to its closing bracket. -/
def groupName? (names : List String) (cs : List Char) : Option (String × List Char) :=
  let name := cs.takeWhile (· != '>')
  match name, cs.dropWhile (· != '>') with
  | c :: rest, '>' :: cs =>
    let text := String.ofList name
    if isNameChar true c && rest.all (isNameChar false) && text ∉ names then some (text, cs)
    else none
  | _, _ => none

/-- Whether a letter is a flag. -/
def isFlag (c : Char) : Bool := c ∈ ['i', 'm', 's', 'U', 'u', 'R', 'x']

/-- Flags up to the colon or parenthesis behind them: each at most once, and not ending in a
hyphen. -/
def flags? (seen : List Char) : List Char → Option (List Char × List Char)
  | [] => none
  | c :: cs =>
    if c = ':' ∨ c = ')' then
      if seen.head? = some '-' then none else some (seen.reverse, c :: cs)
    else if (isFlag c || c == '-') && c ∉ seen then flags? (c :: seen) cs
    else none

/-- What flags say about one of them: set, cleared (behind the hyphen), or nothing. -/
def flagState (flag : Char) (current : Bool) (flags : List Char) : Bool :=
  if flag ∈ flags then flag ∈ flags.takeWhile (· != '-') else current

/-- The mode that flags make of a mode. -/
def Mode.set (m : Mode) (flags : List Char) : Mode :=
  ⟨flagState 'x' m.verbose flags, flagState 'u' m.unicode flags⟩

/-- Opens a group in a mode. -/
def State.openGroup (s : State) (inside : Mode) : State :=
  ⟨inside, s.names, .empty, ⟨s.inner, s.mode⟩ :: s.outer⟩

/-- What stands behind an opening parenthesis. -/
def group? (s : State) (cs : List Char) : Option (State × List Char) :=
  match s.mode.skip cs with
  | '?' :: '=' :: _ | '?' :: '!' :: _ | '?' :: '<' :: '=' :: _ | '?' :: '<' :: '!' :: _ => none
  | '?' :: 'P' :: '<' :: cs | '?' :: '<' :: cs =>
    (groupName? s.names cs).map fun r =>
      (State.openGroup ⟨s.mode, r.1 :: s.names, s.inner, s.outer⟩ s.mode, r.2)
  | '?' :: cs =>
    match flags? [] cs with
    | none => none
    | some (flags, ')' :: cs) =>
      if flags.isEmpty then none
      else some (⟨s.mode.set flags, s.names, s.inner.add ⟨0, false⟩, s.outer⟩, cs)
    | some (flags, cs) => some (s.openGroup (s.mode.set flags), cs.drop 1)
  | cs => some (s.openGroup s.mode, cs)

/-- Closes the innermost group. -/
def State.closeGroup? (s : State) : Option State :=
  match s.outer with
  | [] => none
  | g :: outer => some ⟨g.mode, s.names, g.around.add ⟨1 + s.inner.nesting, true⟩, outer⟩

/-! ## Whole patterns -/

/-- Adds a part to the current branch. -/
def State.add (s : State) (nesting : Nat) : State :=
  ⟨s.mode, s.names, s.inner.add ⟨nesting, true⟩, s.outer⟩

/-- Repeats the latest part of the current branch. -/
def State.repeatLast? (s : State) : Option State :=
  s.inner.repeatLast?.map fun c => ⟨s.mode, s.names, c, s.outer⟩

/-- The next part of a pattern that starts with `c`. -/
def step? (s : State) (c : Char) (cs : List Char) : Option (State × List Char) :=
  if c = '(' then group? s cs
  else if c = ')' then s.closeGroup?.map (·, cs)
  else if c = '|' then some (⟨s.mode, s.names, s.inner.nextBranch, s.outer⟩, cs)
  else if c = '[' then (set? s.mode cs).map fun r => (s.add r.1, r.2)
  else if c = '?' ∨ c = '*' ∨ c = '+' then s.repeatLast?.map (·, dropLazy cs)
  else if c = '\x7b' then
    match s.repeatLast?, counted? s.mode cs with
    | some s, some cs => some (s, cs)
    | _, _ => none
  else if c = '\\' then (allowedEscape? s.mode cs).map fun r => (s.add 0, r.2)
  else if c = '.' then (if s.mode.unicode then some (s.add 0, cs) else none)
  else some (s.add 0, cs)

/-- Reads the rest of a pattern; the nesting of the whole if it is well-formed. -/
def read? : (fuel : Nat) → State → List Char → Option Nat
  | 0, _, _ => none
  | fuel + 1, s, cs =>
    match s.mode.skip cs with
    | [] => if s.outer.isEmpty then some s.inner.nesting else none
    | c :: cs =>
      match step? s c cs with
      | none => none
      | some (s, cs) => read? fuel s cs

/-- How many levels the parts of a pattern may be nested. -/
def nestingLimit : Nat := 250

/-- The characters of an expression in its frame. -/
def framed (expression : String) : List Char :=
  ['^', '(', '?', ':'] ++ expression.toList ++ [')', '$']

/-- Whether a text is a regular expression. -/
def isValid (expression : String) : Bool :=
  let cs := framed expression
  (read? (cs.length + 1) ⟨.initial, [], .empty, []⟩ cs).any (· ≤ nestingLimit)

end Pattern

end YangSchema
