import YangSchema.Statement
import YangSchema.Statement.Token

/-!
# From tokens to a statement tree

A statement is a keyword, which is an unquoted text, then an optional argument, then either a
semicolon or its substatements between braces. An argument is one unquoted text, or quoted texts
joined by unquoted `+`, whose values are put together. A text holds one statement and nothing
behind it.

The reader takes the tokens one by one. Its state says what may come next and holds the statements
that are not yet closed, innermost first; `State.push` is the effect of one token, `State.finish`
of the end of the text.
-/

namespace YangSchema

namespace Statement

/-- What can be wrong with the text of a statement. -/
inductive Fault where
  | token (fault : Token.Fault)
  | expectedStatement
  | expectedKeyword (found : Token)
  | unterminated (keyword : Keyword)
  | unclosed (keyword : Keyword)
  | expectedEnd (keyword : Keyword) (found : Token)
  | expectedQuoted
  | trailingContent
  deriving Repr, DecidableEq

/-- The wording of a fault. -/
def Fault.message : Fault → String
  | .token fault => fault.message
  | .expectedStatement => "expected statement"
  | .expectedKeyword found => "expected keyword, found " ++ found.display
  | .unterminated keyword => "unterminated statement '" ++ keyword.text ++ "'"
  | .unclosed keyword => "missing '\x7d' for '" ++ keyword.text ++ "'"
  | .expectedEnd keyword found =>
    "expected ';' or '\x7b' after '" ++ keyword.text ++ "', found " ++ found.display
  | .expectedQuoted => "expected quoted string after '+'"
  | .trailingContent => "trailing content after the root statement"

/-- A fault and where it shows. -/
structure Failure where
  location : Location
  fault : Fault
  deriving Repr, DecidableEq

/-! ## The reader's state -/

/-- A statement whose closing brace is still to come, with its substatements so far, latest
first. -/
structure Open where
  head : Head
  earlier : List Statement

/-- What has been read. -/
inductive State where
  /-- A statement may start here, or the innermost open one may end. -/
  | between (above : List Open)
  /-- Behind a keyword. -/
  | named (head : Head) (above : List Open)
  /-- Behind a quoted text of an argument; more of it may follow. -/
  | quotedArgument (head : Head) (value : String) (above : List Open)
  /-- Behind a `+`, which stands at `plus`. -/
  | joining (head : Head) (value : String) (plus : Position) (above : List Open)
  /-- Behind a complete argument. -/
  | argued (head : Head) (above : List Open)
  /-- Behind the root statement. -/
  | complete (root : Statement)

namespace State

/-- Adds a finished statement to the innermost open one. -/
def close (s : Statement) : List Open → State
  | [] => .complete s
  | o :: above => .between (⟨o.head, s :: o.earlier⟩ :: above)

/-- The effect of the token behind keyword and argument. -/
def endHead (origin : String) (head : Head) (above : List Open) (t : Token.Placed) :
    Except Failure State :=
  match t.token with
  | .semicolon => .ok (close ⟨head, []⟩ above)
  | .opening => .ok (.between (⟨head, []⟩ :: above))
  | found => .error ⟨.ofPosition origin t.position, .expectedEnd head.keyword found⟩

/-- The effect of one token. -/
def push (origin : String) (t : Token.Placed) : State → Except Failure State
  | .between above =>
    match t.token, above with
    | .text value false, _ =>
      .ok (.named ⟨.ofString value, none, .ofPosition origin t.position⟩ above)
    | .closing, o :: above => .ok (close ⟨o.head, o.earlier.reverse⟩ above)
    | found, _ => .error ⟨.ofPosition origin t.position, .expectedKeyword found⟩
  | .named head above =>
    match t.token with
    | .text value false => .ok (.argued ⟨head.keyword, some value, head.location⟩ above)
    | .text value true => .ok (.quotedArgument head value above)
    | _ => endHead origin head above t
  | .quotedArgument head value above =>
    if t.token = .text "+" false then .ok (.joining head value t.position above)
    else endHead origin ⟨head.keyword, some value, head.location⟩ above t
  | .joining head value plus above =>
    match t.token with
    | .text more true => .ok (.quotedArgument head (value ++ more) above)
    | _ => .error ⟨.ofPosition origin plus, .expectedQuoted⟩
  | .argued head above => endHead origin head above t
  | .complete _ => .error ⟨.ofPosition origin t.position, .trailingContent⟩

/-- The effect of the end of the text at position `p`. -/
def finish (origin : String) (p : Position) : State → Except Failure Statement
  | .between [] => .error ⟨.ofPosition origin p, .expectedStatement⟩
  | .between (o :: _) => .error ⟨o.head.location, .unclosed o.head.keyword⟩
  | .named head _ | .quotedArgument head _ _ | .argued head _ =>
    .error ⟨head.location, .unterminated head.keyword⟩
  | .joining _ _ plus _ => .error ⟨.ofPosition origin plus, .expectedQuoted⟩
  | .complete root => .ok root

/-- Takes in all tokens up to the ending. -/
def run (origin : String) (ending : Token.Ending) : List Token.Placed → State →
    Except Failure Statement
  | [], s =>
    match ending with
    | .ok p => s.finish origin p
    | .error e => .error ⟨.ofPosition origin e.position, .token e.fault⟩
  | t :: ts, s =>
    match s.push origin t with
    | .ok s => run origin ending ts s
    | .error e => .error e

end State

/-- Reads the one statement of a text; `origin` labels the locations. -/
def parse (origin text : String) : Except Failure Statement :=
  let scanned := Token.scan text
  State.run origin scanned.2 scanned.1 (.between [])

end Statement

end YangSchema
