/-!
# Writing texts in TOML

A text is written in the first of four forms that takes it without an escaped form: one double
quote, one single quote, three double quotes or three single quotes on either side. Where none does,
it is written in double quotes with escaped forms, three of them if it has several lines.

Double quotes take a run of quotes that is too short to end the text as it is. Behind three quotes
a text of several lines begins on a line of its own.
-/

namespace YangSchema.Toml

/-- The quotes around a text: of which kind, and whether there are three on either side. -/
structure Quoting where
  /-- Whether the quotes are single ones, between which nothing is escaped. -/
  single : Bool
  /-- Whether there are three quotes on either side. -/
  triple : Bool
  deriving Repr, DecidableEq

/-- Whether a character cannot stand as it is in any form. -/
def needsEscape (c : Char) : Bool := (c < ' ' && c != '\t' && c != '\n') || c == '\x7f'

/-- The length of the longest run of a character in a text behind `run` of them. -/
def longestRun (c : Char) (run : Nat) : List Char → Nat
  | [] => run
  | x :: cs => if x = c then longestRun c (run + 1) cs else max run (longestRun c 0 cs)

namespace Quoting

/-- The quote of a form. -/
def quote (q : Quoting) : Char := if q.single then '\'' else '"'

/-- How many quotes in a row can stand in a text as they are. -/
def freeRun (q : Quoting) : Nat := if q.triple then 2 else 0

/-- Whether a text can be written in a form without an escaped form. -/
def takes (q : Quoting) (cs : List Char) : Bool :=
  !cs.any needsEscape && longestRun q.quote 0 cs ≤ q.freeRun && (q.triple || !cs.contains '\n')
    && (q.single || !cs.contains '\\')

/-- The forms in the order in which they are tried. -/
def all : List Quoting := [⟨false, false⟩, ⟨true, false⟩, ⟨false, true⟩, ⟨true, true⟩]

/-- The form in which a text is written. -/
def choose (cs : List Char) : Quoting :=
  (all.find? (·.takes cs)).getD ⟨false, cs.contains '\n'⟩

end Quoting

/-- The digits of a number below `16 ^ 4`, four of them. -/
def fourDigits (n : Nat) : List Char :=
  (List.range 4).map fun i => (Nat.digitChar (n / Nat.pow 16 (3 - i) % 16)).toUpper

/-- The escaped form of a character in double quotes, if it has to have one. -/
def escaped? (triple : Bool) (c : Char) : Option (List Char) :=
  if c = '\x08' then some ['\\', 'b']
  else if c = '\t' then some ['\\', 't']
  else if c = '\n' then (if triple then none else some ['\\', 'n'])
  else if c = '\x0c' then some ['\\', 'f']
  else if c = '\r' then some ['\\', 'r']
  else if c = '\\' then some ['\\', '\\']
  else if needsEscape c then some ('\\' :: 'u' :: fourDigits c.toNat)
  else none

/-- What stands between double quotes for a text behind `run` quotes that stand as they are. -/
def escapeFrom (triple : Bool) (run : Nat) : List Char → List Char
  | [] => []
  | c :: cs =>
    if c = '"' then
      if run < Quoting.freeRun ⟨false, triple⟩ then '"' :: escapeFrom triple (run + 1) cs
      else '\\' :: '"' :: escapeFrom triple 0 cs
    else (escaped? triple c).getD [c] ++ escapeFrom triple 0 cs

/-- The written form of a text. -/
def written (text : String) : String :=
  let cs := text.toList
  let q := Quoting.choose cs
  let quotes := List.replicate (if q.triple then 3 else 1) q.quote
  let start := if q.triple && cs.contains '\n' then ['\n'] else []
  let body := if q.single then cs else escapeFrom q.triple 0 cs
  String.ofList (quotes ++ start ++ body ++ quotes)

example : written "a'b" = "\"a'b\"" ∧ written "a\"b" = "'a\"b'" := by decide +kernel

example : written "it's \"so\"" = "\"\"\"it's \"so\"\"\"\"" := by decide +kernel

end YangSchema.Toml
