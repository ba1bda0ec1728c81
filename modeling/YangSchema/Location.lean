/-!
# Positions and locations

A position is a line and a column of a text, both counted from 1 in characters; a newline is the
last character of its line. A location is a position together with a label for the text.
-/

namespace YangSchema

/-- A line and a column. -/
structure Position where
  line : Nat
  column : Nat
  deriving Repr, DecidableEq, Inhabited

namespace Position

/-- The position of the first character. -/
def start : Position := ⟨1, 1⟩

/-- The position behind a character. -/
def step (p : Position) (c : Char) : Position :=
  if c = '\n' then ⟨p.line + 1, 1⟩ else ⟨p.line, p.column + 1⟩

/-- The position behind a list of characters. -/
def advance (p : Position) (cs : List Char) : Position := cs.foldl step p

@[simp] theorem advance_nil (p : Position) : p.advance [] = p := rfl

@[simp] theorem advance_cons (p : Position) (c : Char) (cs : List Char) :
    p.advance (c :: cs) = (p.step c).advance cs := rfl

theorem advance_append (p : Position) (as bs : List Char) :
    p.advance (as ++ bs) = (p.advance as).advance bs := List.foldl_append

end Position

/-- Where a statement was written. -/
structure Location where
  /-- Label of the text, such as a file name. -/
  origin : String
  line : Nat
  column : Nat
  deriving Repr, DecidableEq, Inhabited

namespace Location

/-- The location of a position in the text labelled `origin`. -/
def ofPosition (origin : String) (p : Position) : Location := ⟨origin, p.line, p.column⟩

/-- The location of what was not read from a text. -/
def synthetic (origin : String) : Location := ⟨origin, 0, 0⟩

instance : ToString Location where
  toString l := l.origin ++ ":" ++ toString l.line ++ ":" ++ toString l.column

end Location

end YangSchema
