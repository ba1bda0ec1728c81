import YangSchema.Location
import YangSchema.Text.Blank
import YangSchema.Text.Quoted

/-!
# Tokens

A text is a sequence of tokens, separated by *trivia*: blanks, line comments from `//` to the end
of the line, and block comments between `/*` and the next `*/`. A comment starts only where a token
could start; inside an unquoted text `//` is text.

* `skipTrivia` passes over trivia and refuses a block comment without end.
* `nextToken?` reads one token and leaves a shorter rest (`nextToken?_shorter`).
* `scan` reads all tokens of a text.
-/

namespace YangSchema

/-- The smallest pieces of a text that carry meaning. -/
inductive Token where
  | text (value : String) (quoted : Bool)
  | opening
  | closing
  | semicolon
  deriving Repr, DecidableEq, Inhabited

namespace Token

/-- How a message shows a token. -/
def display : Token → String
  | .text value isQuoted =>
    "Text \x7b value: " ++ Text.quoted value ++ ", quoted: " ++ toString isQuoted ++ " \x7d"
  | .opening => "Open"
  | .closing => "Close"
  | .semicolon => "Semicolon"

/-- A token and where it starts. -/
structure Placed where
  token : Token
  position : Position
  deriving Repr, DecidableEq, Inhabited

/-- What can be wrong with a text before it is divided into tokens. -/
inductive Fault where
  | openComment
  | openDoubleQuotes
  | openSingleQuotes
  deriving Repr, DecidableEq

/-- The wording of a fault. -/
def Fault.message : Fault → String
  | .openComment => "unterminated comment"
  | .openDoubleQuotes => "unterminated double-quoted string"
  | .openSingleQuotes => "unterminated single-quoted string"

/-- A fault and where the piece in question starts. -/
structure Failure where
  position : Position
  fault : Fault
  deriving Repr, DecidableEq

/-- What is still to be read of a text, and its position. -/
structure Cursor where
  position : Position
  rest : List Char
  deriving Repr, DecidableEq

/-! ## Trivia -/

/-- What a reader of trivia is in the middle of. -/
inductive Trivia where
  /-- Nothing: a token or more trivia may follow. -/
  | gap
  /-- A line comment. -/
  | line
  /-- A block comment that starts at `start`; `previous` is its latest character, NUL at first. -/
  | block (start : Position) (previous : Char)

/-- Passes over trivia. -/
def skipTrivia : Trivia → Position → List Char → Except Failure Cursor
  | .gap, p, [] => .ok ⟨p, []⟩
  | .gap, p, '/' :: '/' :: cs => skipTrivia .line ((p.step '/').step '/') cs
  | .gap, p, '/' :: '*' :: cs => skipTrivia (.block p '\x00') ((p.step '/').step '*') cs
  | .gap, p, c :: cs =>
    if Text.isBlank c then skipTrivia .gap (p.step c) cs else .ok ⟨p, c :: cs⟩
  | .line, p, [] => .ok ⟨p, []⟩
  | .line, p, c :: cs => skipTrivia (if c = '\n' then .gap else .line) (p.step c) cs
  | .block start _, _, [] => .error ⟨start, .openComment⟩
  | .block start previous, p, c :: cs =>
    skipTrivia (if c = '/' ∧ previous = '*' then .gap else .block start c) (p.step c) cs

theorem skipTrivia_length {m : Trivia} {p : Position} {cs : List Char} {k : Cursor}
    (h : skipTrivia m p cs = .ok k) : k.rest.length ≤ cs.length := by
  fun_induction skipTrivia m p cs <;> simp_all <;> first | omega | (subst h; simp)

/-! ## One token -/

/-- The characters that end an unquoted text. -/
def isDelimiter (c : Char) : Bool :=
  Text.isBlank c || c == '\x7b' || c == '\x7d' || c == ';' || c == '"' || c == '\''

/-- The rest of a text in double quotes, behind the opening quote; `acc` holds what was read, latest
first. `\n`, `\t`, `\"` and `\\` stand for newline, tab, quote and backslash; any other backslash
stands for itself. -/
def doubleQuoted (acc : List Char) : Position → List Char → Option (List Char × Cursor)
  | _, [] => none
  | _, ['\\'] => none
  | p, '\\' :: c :: cs =>
    let acc :=
      if c = 'n' then '\n' :: acc
      else if c = 't' then '\t' :: acc
      else if c = '"' then '"' :: acc
      else if c = '\\' then '\\' :: acc
      else c :: '\\' :: acc
    doubleQuoted acc ((p.step '\\').step c) cs
  | p, c :: cs =>
    if c = '"' then some (acc.reverse, ⟨p.step c, cs⟩) else doubleQuoted (c :: acc) (p.step c) cs

/-- The rest of a text in single quotes, behind the opening quote: all up to the next quote. -/
def singleQuoted (acc : List Char) : Position → List Char → Option (List Char × Cursor)
  | _, [] => none
  | p, c :: cs =>
    if c = '\'' then some (acc.reverse, ⟨p.step c, cs⟩) else singleQuoted (c :: acc) (p.step c) cs

theorem doubleQuoted_length {acc v : List Char} {p : Position} {cs : List Char} {k : Cursor}
    (h : doubleQuoted acc p cs = some (v, k)) : k.rest.length < cs.length := by
  fun_induction doubleQuoted acc p cs with
  | case1 | case2 => cases h
  | case3 _ _ _ _ _ ih => have := ih h; simp only [List.length_cons]; omega
  | case4 => obtain ⟨_, rfl⟩ := Prod.mk.inj (Option.some.inj h); simp
  | case5 => simp_all only [forall_const, List.length_cons]; omega

theorem singleQuoted_length {acc v : List Char} {p : Position} {cs : List Char} {k : Cursor}
    (h : singleQuoted acc p cs = some (v, k)) : k.rest.length < cs.length := by
  fun_induction singleQuoted acc p cs with
  | case1 => cases h
  | case2 => obtain ⟨_, rfl⟩ := Prod.mk.inj (Option.some.inj h); simp
  | case3 _ _ _ _ _ ih => have := ih h; simp only [List.length_cons]; omega

/-- The token whose first character is `c` at position `p`, before `cs`. -/
def readToken (p : Position) (c : Char) (cs : List Char) : Except Failure (Token × Cursor) :=
  if c = '\x7b' then .ok (.opening, ⟨p.step c, cs⟩)
  else if c = '\x7d' then .ok (.closing, ⟨p.step c, cs⟩)
  else if c = ';' then .ok (.semicolon, ⟨p.step c, cs⟩)
  else if c = '"' then
    match doubleQuoted [] (p.step c) cs with
    | some (v, k) => .ok (.text (String.ofList v) true, k)
    | none => .error ⟨p, .openDoubleQuotes⟩
  else if c = '\'' then
    match singleQuoted [] (p.step c) cs with
    | some (v, k) => .ok (.text (String.ofList v) true, k)
    | none => .error ⟨p, .openSingleQuotes⟩
  else
    let word := c :: cs.takeWhile (!isDelimiter ·)
    .ok (.text (String.ofList word) false, ⟨p.advance word, cs.dropWhile (!isDelimiter ·)⟩)

theorem readToken_length {p : Position} {c : Char} {cs : List Char} {t : Token} {k : Cursor}
    (h : readToken p c cs = .ok (t, k)) : k.rest.length ≤ cs.length := by
  unfold readToken at h
  split at h
  · cases h; exact Nat.le_refl _
  split at h
  · cases h; exact Nat.le_refl _
  split at h
  · cases h; exact Nat.le_refl _
  split at h
  · split at h
    · rename_i hd; cases h; exact Nat.le_of_lt (doubleQuoted_length hd)
    · cases h
  split at h
  · split at h
    · rename_i hd; cases h; exact Nat.le_of_lt (singleQuoted_length hd)
    · cases h
  · cases h; exact (List.dropWhile_sublist _).length_le

/-- The next token behind trivia, and what follows it; on the left the position behind the last
trivia if no token is left. -/
def nextToken? (k : Cursor) : Except Failure (Position ⊕ Placed × Cursor) :=
  match skipTrivia .gap k.position k.rest with
  | .error e => .error e
  | .ok ⟨p, []⟩ => .ok (.inl p)
  | .ok ⟨p, c :: cs⟩ =>
    match readToken p c cs with
    | .error e => .error e
    | .ok (t, k) => .ok (.inr (⟨t, p⟩, k))

/-- Reading a token leaves less to read. -/
theorem nextToken?_shorter {k k' : Cursor} {t : Placed}
    (h : nextToken? k = .ok (.inr (t, k'))) : k'.rest.length < k.rest.length := by
  unfold nextToken? at h
  split at h
  · cases h
  · cases h
  · rename_i p c cs hs
    have h₁ := skipTrivia_length hs
    split at h
    · cases h
    · rename_i t' k'' hr
      cases h
      have h₂ := readToken_length hr
      simp only [List.length_cons] at h₁
      omega

/-! ## All tokens -/

/-- How a text ends: where its last trivia end, or with a fault. -/
abbrev Ending := Except Failure Position

/-- All tokens from a cursor on, up to the end or the first fault. -/
def scanFrom (k : Cursor) : List Placed × Ending :=
  match _h : nextToken? k with
  | .error e => ([], .error e)
  | .ok (.inl p) => ([], .ok p)
  | .ok (.inr (t, k')) =>
    let r := scanFrom k'
    (t :: r.1, r.2)
termination_by k.rest.length
decreasing_by exact nextToken?_shorter _h

/-- All tokens of a text, up to its end or its first fault. -/
def scan (text : String) : List Placed × Ending := scanFrom ⟨.start, text.toList⟩

end Token

end YangSchema
