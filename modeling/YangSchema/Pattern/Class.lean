import YangSchema.Pattern.Escape

/-!
# Bracketed sets in patterns

A set of characters in brackets is a union of characters, ranges, named sets and further bracketed
sets; unions may be joined by `&&`, `--` and `~~`, from left to right.

The reader keeps the sets that are still open, innermost first, and computes how deeply the parts of
the set are nested.
-/

namespace YangSchema

namespace Pattern

/-- How deeply a sequence of parts is nested: one level more than the deepest if there are
several. -/
def nestingOf : List Nat → Nat
  | [] => 0
  | [n] => n
  | ns => 1 + ns.foldl max 0

/-- A set whose closing bracket is still to come. -/
structure OpenSet where
  /-- The nesting of what stands before the latest operator, if there is one. -/
  left : Option Nat
  /-- The nesting of each part behind it. -/
  parts : List Nat
  deriving Repr

/-- The nesting of a set as far as it is read. -/
def OpenSet.nesting (s : OpenSet) : Nat :=
  match s.left with
  | some n => 1 + max n (nestingOf s.parts)
  | none => nestingOf s.parts

/-- Adds a part. -/
def OpenSet.add (s : OpenSet) (n : Nat) : OpenSet := ⟨s.left, n :: s.parts⟩

/-- Ends the union before an operator. -/
def OpenSet.endUnion (s : OpenSet) : OpenSet := ⟨some s.nesting, []⟩

/-! ## Opening a set -/

/-- Hyphens at the start of a set stand for themselves. -/
def leadingHyphens? (m : Mode) (parts : List Nat) (fuel : Nat) (cs : List Char) :
    Option (List Nat × List Char) :=
  match fuel with
  | 0 => none
  | fuel + 1 =>
    match cs with
    | [] => none
    | '-' :: cs => leadingHyphens? m (0 :: parts) fuel (m.skip cs)
    | cs => some (parts, cs)

/-- What stands at the start of a set, behind its bracket: perhaps a `^`, then hyphens, or else a
closing bracket that stands for itself. -/
def openSet? (m : Mode) (cs : List Char) : Option (OpenSet × List Char) :=
  let start? := match m.skip cs with
    | '^' :: cs => if m.unicode then some (m.skip cs) else none
    | cs => some cs
  match start? with
  | none => none
  | some cs =>
    match leadingHyphens? m [] (cs.length + 1) cs with
    | none => none
    | some ([], ']' :: cs) =>
      match m.skip cs with
      | [] => none
      | cs => some (⟨none, [0]⟩, cs)
    | some (parts, cs) => some (⟨none, parts⟩, cs)

/-! ## Parts of a set -/

/-- The names of the sets of ASCII characters. -/
def asciiSetNames : List String := [
  "alnum", "alpha", "ascii", "blank", "cntrl", "digit", "graph", "lower", "print", "punct",
  "space", "upper", "word", "xdigit"]

/-- A named set of ASCII characters such as `[:alpha:]`, from its bracket on; whether it is
negated, and what is left. -/
def asciiSet? (cs : List Char) : Option (Bool × List Char) :=
  match cs with
  | '[' :: ':' :: cs =>
    let (negated, cs) := match cs with
      | '^' :: cs => (true, cs)
      | cs => (false, cs)
    match cs.dropWhile (· != ':') with
    | ':' :: ']' :: rest =>
      if String.ofList (cs.takeWhile (· != ':')) ∈ asciiSetNames then some (negated, rest)
      else none
    | _ => none
  | _ => none

/-- A character or an escape, as an item of a set. -/
def setItem? (m : Mode) : List Char → Option (Piece × List Char)
  | [] => none
  | '\\' :: cs => allowedEscape? m cs
  | c :: cs => some (.literal c false, cs)

/-- Whether a piece may be an item of a set. -/
def isSetItem (m : Mode) : Piece → Bool
  | .literal c _ => m.unicode || c.toNat < 128
  | .shorthand _ | .property => true
  | .assertion => false

/-- Where a look behind a hyphen ends; a number sign is passed over once. -/
def lookBehind? (passed : Bool) : List Char → Option (List Char)
  | [] => none
  | c :: cs =>
    if Text.isBlank c then lookBehind? passed cs
    else if !passed && c == '#' then lookBehind? true cs
    else some (c :: cs)

/-- The character behind a hyphen, which decides whether it makes a range. -/
def behindHyphen? (m : Mode) (cs : List Char) : Option Char :=
  if m.verbose then ((lookBehind? false cs).getD cs).head? else cs.head?

/-- One item, or two with a hyphen between them, which must be characters in ascending order. -/
def setRange? (m : Mode) (cs : List Char) : Option (List Char) :=
  match setItem? m cs with
  | none => none
  | some (low, cs) =>
    match m.skip cs with
    | [] => none
    | '-' :: rest =>
      let next := behindHyphen? m rest
      if next = some ']' ∨ next = some '-' then
        if isSetItem m low then some ('-' :: rest) else none
      else
        match m.skip rest with
        | [] => none
        | rest =>
          match setItem? m rest with
          | none => none
          | some (high, cs) =>
            match low, high with
            | .literal a _, .literal b _ =>
              if a ≤ b && isSetItem m low && isSetItem m high then some cs else none
            | _, _ => none
    | cs => if isSetItem m low then some cs else none

/-! ## Whole sets -/

/-- Reads the innermost open set and those around it; returns the nesting of the outermost and what
is left behind it. -/
def readSet? (m : Mode) : (fuel : Nat) → OpenSet → List OpenSet → List Char →
    Option (Nat × List Char)
  | 0, _, _, _ => none
  | fuel + 1, inner, outer, cs =>
    match m.skip cs with
    | [] => none
    | '[' :: rest =>
      match asciiSet? ('[' :: rest) with
      | some (negated, rest) =>
        if m.unicode || !negated then readSet? m fuel (inner.add 0) outer rest else none
      | none =>
        match openSet? m rest with
        | none => none
        | some (s, rest) => readSet? m fuel s (inner :: outer) rest
    | ']' :: rest =>
      match outer with
      | [] => some (1 + inner.nesting, rest)
      | o :: outer => readSet? m fuel (o.add (1 + inner.nesting)) outer rest
    | '&' :: '&' :: rest => readSet? m fuel inner.endUnion outer rest
    | '-' :: '-' :: rest => readSet? m fuel inner.endUnion outer rest
    | '~' :: '~' :: rest => readSet? m fuel inner.endUnion outer rest
    | cs =>
      match setRange? m cs with
      | none => none
      | some rest => readSet? m fuel (inner.add 0) outer rest

/-- Reads a set behind its opening bracket. -/
def set? (m : Mode) (cs : List Char) : Option (Nat × List Char) :=
  match openSet? m cs with
  | none => none
  | some (s, rest) => readSet? m (rest.length + 1) s [] rest

end Pattern

end YangSchema
