import YangSchema.Yaml.Scalar

/-!
# Tokens of YAML

`tokens?` cuts a text into tokens. Collections in a block are told from each other by indentation;
tokens of their own mark where they begin and end. A mapping begins with its first key, which is
known to be one only when its colon is read: where a key can begin, its place is kept, and the
tokens that belong before it are put there afterwards.
-/

namespace YangSchema.Yaml

/-- A token. -/
inductive Token where
  | versionDirective
  | tagDirective (handle namespaceUri : String)
  | documentStart
  | documentEnd
  | blockSequenceStart
  | blockMappingStart
  | blockEnd
  | flowSequenceStart
  | flowSequenceEnd
  | flowMappingStart
  | flowMappingEnd
  | blockEntry
  | flowEntry
  | key
  | value
  | alias (name : String)
  | anchor (name : String)
  | tag (handle suffix : String)
  | scalar (isPlain : Bool) (text : String)
  deriving Repr, DecidableEq

/-- A place at which a key can begin. -/
structure KeyPlace where
  isPossible : Bool
  /-- Whether nothing but a key can stand there. -/
  isRequired : Bool
  /-- How many tokens are before it. -/
  count : Nat
  index : Nat
  line : Nat
  column : Nat
  deriving Repr, DecidableEq

/-- An indentation inside of which another one has begun. -/
structure Indentation where
  column : Int
  /-- Whether the inner one is that of a collection. -/
  isBlock : Bool
  deriving Repr, DecidableEq

/-- What is known when a part of a text has been cut into tokens. -/
structure Lexer where
  cursor : Cursor
  /-- The tokens, latest first, each with its column. -/
  tokens : List (Token × Nat)
  /-- Whether a key can begin here. -/
  keyAllowed : Bool
  /-- The places of keys, one for each open bracket or brace and one more; the innermost first. -/
  keys : List KeyPlace
  /-- The indentation of the innermost collection, -1 if there is none. -/
  indent : Int
  outer : List Indentation
  /-- How many brackets and braces are open. -/
  depth : Nat
  /-- The place behind a text in quotes, brackets or braces; a colon there needs no blank behind. -/
  adjacentIndex : Nat
  /-- Whether a mapping has begun inside the brackets or braces. -/
  inMapping : Bool
  /-- For each open bracket, whether a mapping of one key without braces has begun in it. -/
  singlePairs : List Bool

namespace Lexer

/-- A place at which no key can begin. -/
def noKey : KeyPlace := ⟨false, false, 0, 0, 0, 0⟩

/-- What is known at the beginning of a text. -/
def start (text : String) : Lexer where
  cursor := .start text
  tokens := []
  keyAllowed := true
  keys := [noKey]
  indent := -1
  outer := []
  depth := 0
  adjacentIndex := 0
  inMapping := false
  singlePairs := []

/-- Whether brackets or braces are open. -/
def inFlow (s : Lexer) : Bool := s.depth != 0

/-- The column of the place that has been reached. -/
def column (s : Lexer) : Nat := s.cursor.column

/-- Adds a token. -/
def push (s : Lexer) (t : Token) (column : Nat) : Lexer :=
  { s with tokens := (t, column) :: s.tokens }

/-- Puts a token behind the first `count` tokens. -/
def insert (s : Lexer) (count : Nat) (t : Token) : Lexer :=
  let later := s.tokens.length - count
  { s with tokens := s.tokens.take later ++ (t, s.column) :: s.tokens.drop later }

/-! ## Indentation -/

/-- Ends the collections that are indented further than a column. -/
def unrollTo (column : Int) (s : Lexer) : List Indentation → Lexer
  | [] => { s with outer := [] }
  | i :: rest =>
    if s.indent ≤ column then { s with outer := i :: rest }
    else
      let s := { s with indent := i.column }
      unrollTo column (if i.isBlock then s.push .blockEnd s.column else s) rest

/-- Ends the collections that are indented further than a column, unless brackets are open. -/
def unroll (s : Lexer) (column : Int) : Lexer :=
  if s.inFlow then s else unrollTo column s s.outer

/-- Gives up an indentation that is not that of a collection. -/
def dropLoose (s : Lexer) : Lexer :=
  match s.outer with
  | i :: rest => if i.isBlock then s else { s with indent := i.column, outer := rest }
  | [] => s

/-- Begins a collection at a column, unless it has begun there already. The token for it is put
behind the first `count` tokens, or behind all. -/
def roll (s : Lexer) (column : Nat) (count : Option Nat) (t : Token) : Lexer :=
  if s.inFlow then s
  else
    let s := if s.indent ≤ column then s.dropLoose else s
    if s.indent < column then
      let s := match count with
        | some n => s.insert n t
        | none => s.push t column
      { s with outer := ⟨s.indent, true⟩ :: s.outer, indent := column }
    else s

/-- Indents by one column what belongs to an entry of a collection. -/
def rollLoose (s : Lexer) : Lexer :=
  if !s.inFlow && s.outer.head?.any (·.isBlock) then
    { s with outer := ⟨s.indent, false⟩ :: s.outer, indent := s.indent + 1 }
  else s

/-! ## Places of keys -/

/-- Keeps the place as one at which a key can begin. -/
def saveKey (s : Lexer) : Lexer :=
  if s.keyAllowed then
    let c := s.cursor
    let isRequired := !s.inFlow && s.indent == c.column && s.outer.head?.any (·.isBlock)
    let place := ⟨true, isRequired, s.tokens.length, c.index, c.line, c.column⟩
    { s with keys := place :: s.keys.drop 1 }
  else s

/-- Says that no key begins at the place that was kept. -/
def forgetKey? (s : Lexer) : Option Lexer :=
  match s.keys with
  | place :: rest =>
    if place.isPossible && place.isRequired then none
    else some { s with keys := { place with isPossible := false } :: rest }
  | [] => some s

/-- How far behind its beginning a key can end. -/
def keyLimit : Nat := 1024

/-- Gives up a place at which a key has begun on an earlier line or too far before. -/
def refreshKey? (s : Lexer) (place : KeyPlace) : Option KeyPlace :=
  let c := s.cursor
  if place.isPossible && !s.inFlow
      && (place.line < c.line || place.index + keyLimit < c.index) then
    if place.isRequired then none else some { place with isPossible := false }
  else some place

/-- Gives up the places at which no key can have begun. -/
def refreshKeys? (s : Lexer) : Option Lexer :=
  (s.keys.mapM s.refreshKey?).map fun keys => { s with keys := keys }

/-! ## Blanks -/

/-- Moves on to the next token. -/
def skipToToken? : (fuel : Nat) → Lexer → Option Lexer
  | 0, _ => none
  | fuel + 1, s =>
    let c := s.cursor
    if c.head == '\t' && !s.outer.isEmpty && c.isLeading && (c.column : Int) < s.indent then do
      let (_, c) ← c.skipRest? true
      if isLineEnd c.head then skipToToken? fuel { s with cursor := c } else none
    else if isBlank c.head then skipToToken? fuel { s with cursor := c.skipBlanks 1 }
    else if isBreak c.head then
      skipToToken? fuel { s with cursor := c.skipBreak, keyAllowed := s.keyAllowed || !s.inFlow }
    else if c.head == '#' then skipToToken? fuel { s with cursor := c.skipLine }
    else some s

/-- Moves on over blanks and over the comment behind them. -/
def skipRest? (s : Lexer) : Option Lexer :=
  (s.cursor.skipRest? true).map fun r => { s with cursor := r.2 }

/-! ## Directives and documents -/

/-- Whether a character can stand in a name of a directive or a handle. -/
def isWordChar (c : Char) : Bool :=
  Text.isDigit c || ('a' ≤ c && c ≤ 'z') || ('A' ≤ c && c ≤ 'Z') || c == '_' || c == '-'

/-- Moves on over digits, of which there must be some, but not ten. -/
def skipVersionDigits? (c : Cursor) : Option Cursor :=
  let (digits, c) := c.span Text.isDigit
  if digits.isEmpty || 9 < digits.length then none else some c

/-- Reads the handle of a tag. -/
def handle? (inDirective : Bool) (c : Cursor) : Option (List Char × Cursor) :=
  if c.head != '!' then none
  else
    let (word, c) := (c.skipChars 1).span isWordChar
    if c.head == '!' then some ('!' :: word ++ ['!'], c.skipChars 1)
    else if inDirective && !word.isEmpty then none
    else some ('!' :: word, c)

/-- Whether a character can stand in the name of a tag. -/
def isUriChar (c : Char) : Bool :=
  (isWordChar c && c != '_') || c ∈ "#;/?:@&=+$,_.!~*'()[]%".toList

/-- Reads the bytes of an escaped character, each of two digits behind a percent sign. -/
def escapedBytes? : (count : Nat) → Cursor → Option (List UInt8 × Cursor)
  | 0, c => some ([], c)
  | count + 1, c =>
    if c.head == '%' then do
      let byte ← Text.hexNumber? [c.peek 1, c.peek 2]
      let (bytes, c) ← escapedBytes? count (c.skipChars 3)
      return (byte.toUInt8 :: bytes, c)
    else none

/-- How many bytes a character has that begins with a byte. -/
def byteCount (first : Nat) : Nat :=
  if first < 0x80 then 1
  else if first < 0xC0 then 0
  else if first < 0xE0 then 2
  else if first < 0xF0 then 3
  else if first < 0xF8 then 4
  else 0

/-- Reads an escaped character of a tag. -/
def escapedUriChar? (c : Cursor) : Option (Char × Cursor) := do
  let first ← Text.hexNumber? [c.peek 1, c.peek 2]
  let (bytes, c) ← escapedBytes? (byteCount first) c
  match bytes.map (·.toNat) with
  | [a] => return (← Text.charOfNumber? a, c)
  | a :: rest =>
    let high := a % Nat.pow 2 (7 - bytes.length)
    if rest.all fun b => 0x80 ≤ b && b < 0xC0 then
      return (← Text.charOfNumber? (rest.foldl (fun n b => n * 64 + b % 64) high), c)
    else none
  | [] => none

/-- Reads characters of the name of a tag. -/
def uri? (isOfKind : Char → Bool) : (fuel : Nat) → Cursor → Option (List Char × Cursor)
  | 0, _ => none
  | fuel + 1, c =>
    if !isOfKind c.head then some ([], c)
    else do
      let (x, c) ← if c.head == '%' then escapedUriChar? c else some (c.head, c.skipChars 1)
      let (rest, c) ← uri? isOfKind fuel c
      return (x :: rest, c)

/-- Moves on over blanks. -/
def skipSpaces (c : Cursor) : Cursor := c.skipBlanks (c.rest.takeWhile isBlank).length

/-- Reads the value of a directive. -/
def directiveValue? (name : String) (c : Cursor) : Option (Token × Cursor) :=
  if name = "YAML" then do
    let c ← skipVersionDigits? (skipSpaces c)
    if c.head == '.' then return (.versionDirective, ← skipVersionDigits? (c.skipChars 1)) else none
  else if name = "TAG" then do
    let (handle, c) ← handle? true (skipSpaces c)
    let c := skipSpaces c
    if !(c.head == '!' || (isUriChar c.head && !isFlowSign c.head)) then none
    let (uri, c) ← uri? isUriChar (c.rest.length + 1) c
    if isGap c.head then return (.tagDirective (String.ofList handle) (String.ofList uri), c)
    else none
  else some (.tagDirective "" "", c.skipLine)

/-- Reads a directive. -/
def directive? (s : Lexer) : Option Lexer := do
  let column := s.column
  let s ← (s.unroll (-1)).forgetKey?
  let (name, c) := (s.cursor.skipChars 1).span isWordChar
  if name.isEmpty || !isGap c.head then none
  let (t, c) ← directiveValue? (String.ofList name) c
  let (_, c) ← c.skipRest? true
  if isLineEnd c.head then
    return { s with cursor := c.skipBreak, keyAllowed := false }.push t column
  else none

/-- Reads the sign of the beginning or the end of a document. -/
def documentSign? (t : Token) (s : Lexer) : Option Lexer := do
  let s ← (s.unroll (-1)).forgetKey?
  let s := { s with cursor := s.cursor.skipChars 3, keyAllowed := false }.push t s.column
  if t = .documentEnd then
    let s ← s.skipRest?
    if isLineEnd s.cursor.head then return s else none
  else return s

/-! ## Collections in brackets and braces -/

/-- How many brackets and braces can be open. -/
def depthLimit : Nat := 255

/-- Reads an opening bracket or brace. -/
def flowStart? (t : Token) (s : Lexer) : Option Lexer := do
  let column := s.column
  let s := s.saveKey.rollLoose
  if s.depth = depthLimit then none
  let s := { s with
    keys := noKey :: s.keys
    depth := s.depth + 1
    keyAllowed := true
    cursor := s.cursor.skipChars 1
    inMapping := s.inMapping || t == Token.flowMappingStart
    singlePairs := if t == Token.flowMappingStart then s.singlePairs else false :: s.singlePairs }
  return (← s.skipRest?).push t column

/-- Ends a mapping of one key without braces, if one has begun. -/
def endSinglePair (s : Lexer) : Lexer :=
  match s.singlePairs with
  | true :: rest =>
    { s with inMapping := false, singlePairs := false :: rest }.push .flowMappingEnd s.column
  | _ => s

/-- Reads a closing bracket or brace. -/
def flowEnd? (t : Token) (s : Lexer) : Option Lexer := do
  let column := s.column
  let s ← s.forgetKey?
  let s := { s with
    keys := if s.inFlow then s.keys.drop 1 else s.keys
    depth := s.depth - 1
    keyAllowed := false }
  let s := if t == .flowSequenceEnd then
      let s := s.endSinglePair
      { s with singlePairs := s.singlePairs.drop 1 }
    else s
  let s ← { s with cursor := s.cursor.skipChars 1 }.skipRest?
  let s := if s.inFlow then { s with adjacentIndex := s.cursor.index } else s
  return s.push t column

/-- Reads a comma. -/
def flowEntry? (s : Lexer) : Option Lexer := do
  let column := s.column
  let s ← s.forgetKey?
  let s := { s with keyAllowed := true }.endSinglePair
  return (← { s with cursor := s.cursor.skipChars 1 }.skipRest?).push .flowEntry column

/-! ## Collections in blocks -/

/-- Whether the last token is an anchor or a tag at the beginning of a line. -/
def followsLeftProperty (s : Lexer) : Bool :=
  match s.tokens with
  | (.anchor _, 0) :: _ => true
  | (.tag _ _, 0) :: _ => true
  | _ => false

/-- Reads the dash of an entry. -/
def blockEntry? (s : Lexer) : Option Lexer := do
  if s.inFlow || !s.keyAllowed then none
  if s.followsLeftProperty && s.column == 0 && -1 < s.indent then none
  let column := s.column
  let s := { s with cursor := s.cursor.skipChars 1 }.roll column none .blockSequenceStart
  let (blanks, c) ← s.cursor.skipRest? true
  if blanks.contains '\t' && c.head == '-' && isGap (c.peek 1) then none
  let s := { s with cursor := c }
  let s := if isBreak c.head || isFlowSign c.head then s.rollLoose else s
  let s ← s.forgetKey?
  return { s with keyAllowed := true }.push .blockEntry s.column

/-- Moves on over blanks, comments and line breaks, but not over tabs; says whether there are any
blanks or line breaks. -/
def skipGap : (fuel : Nat) → (found : Bool) → Lexer → Bool × Lexer
  | 0, found, s => (found, s)
  | fuel + 1, found, s =>
    let c := s.cursor
    if c.head == ' ' then skipGap fuel true { s with cursor := c.skipBlanks 1 }
    else if isBreak c.head then
      skipGap fuel true { s with cursor := c.skipBreak, keyAllowed := s.keyAllowed || !s.inFlow }
    else if c.head == '#' then skipGap fuel found { s with cursor := c.skipLine }
    else (found, s)

/-- Reads the question mark of a key. -/
def key? (s : Lexer) : Option Lexer := do
  let column := s.column
  if !s.inFlow && !s.keyAllowed then none
  let s := if s.inFlow then { s with inMapping := true } else s.roll column none .blockMappingStart
  let s ← s.forgetKey?
  let s := { s with keyAllowed := !s.inFlow, cursor := s.cursor.skipChars 1 }
  let (found, s) := skipGap (s.cursor.rest.length + 1) false s
  if !found || s.cursor.head == '\t' then none
  return s.push .key column

/-- Moves on behind a colon. Behind a tab and no blank no dash, letter or digit can come. -/
def skipBehindColon? (s : Lexer) : Option Lexer :=
  let c := s.cursor
  if c.head == '\t' then do
    let (blanks, c) ← c.skipRest? true
    let x := c.head
    if !blanks.contains ' ' && (x == '-' || (isWordChar x && x != '_')) then none
    else return { s with cursor := c }
  else some s

/-- Reads the colon of a value. -/
def value? (s : Lexer) : Option Lexer := do
  let start := s.cursor
  let isPair := !s.singlePairs.isEmpty && !s.inMapping
  let s := if isPair then { s with singlePairs := true :: s.singlePairs.drop 1 } else s
  let s ← { s with cursor := s.cursor.skipChars 1 }.skipBehindColon?
  match s.keys with
  | place :: rest =>
    if place.isPossible then
      if isPair && place.line < start.line then none
      let s := s.insert place.count .key
      let s := if isPair then s.insert place.count .flowMappingStart else s
      let s := (s.roll place.column (some place.count) .blockMappingStart).rollLoose
      let s := { s with keys := { place with isPossible := false } :: rest, keyAllowed := false }
      return s.push .value start.column
    else
      let s := if isPair then s.push .flowMappingStart s.column else s
      if !s.inFlow && !s.keyAllowed then none
      let s := (s.roll start.column none .blockMappingStart).rollLoose
      return { s with keyAllowed := !s.inFlow }.push .value start.column
  | [] => none

/-! ## Nodes -/

/-- Whether a character can stand in the name of an anchor. -/
def isAnchorChar (c : Char) : Bool := !isGap c && !isFlowSign c && c != '\uFEFF'

/-- Reads an anchor or an alias. -/
def anchor? (isAlias : Bool) (s : Lexer) : Option Lexer :=
  let column := s.column
  let s := { s.saveKey with keyAllowed := false }
  let (name, c) := (s.cursor.skipChars 1).span isAnchorChar
  let name' := String.ofList name
  if name.isEmpty then none
  else some ({ s with cursor := c }.push (if isAlias then .alias name' else .anchor name') column)

/-- Reads the name of a tag between `!<` and `>`. -/
def verbatimTag? (c : Cursor) : Option (Token × Cursor) := do
  let (uri, c) ← uri? isUriChar (c.rest.length + 1) (c.skipChars 2)
  if c.head == '>' then return (.tag "" (String.ofList uri), c.skipChars 1) else none

/-- Reads a tag of a handle and a suffix. -/
def shortTag? (c : Cursor) : Option (Token × Cursor) := do
  let isSuffixChar := fun x => isUriChar x && !isFlowSign x && x != '!'
  let (handle, c) ← handle? false c
  let (suffix, c) ← uri? isSuffixChar (c.rest.length + 1) c
  if 2 ≤ handle.length ∧ handle.getLast? = some '!' then
    if suffix.isEmpty then none
    else return (.tag (String.ofList handle) (String.ofList suffix), c)
  else
    let name := handle.drop 1 ++ suffix
    if name.isEmpty then return (.tag "" "!", c) else return (.tag "!" (String.ofList name), c)

/-- Reads a tag. -/
def tag? (s : Lexer) : Option Lexer := do
  let column := s.column
  let s := { s.saveKey with keyAllowed := false }
  let (t, c) ← if s.cursor.peek 1 == '<' then verbatimTag? s.cursor else shortTag? s.cursor
  if isGap c.head || (s.inFlow && isFlowSign c.head) then
    return { s with cursor := c }.push t column
  else none

/-- Reads a block. -/
def block? (literal : Bool) (s : Lexer) : Option Lexer := do
  let column := s.column
  let s := { s.saveKey with keyAllowed := true }.dropLoose
  let (text, c) ← Yaml.block? literal s.indent s.cursor
  return { s with cursor := c }.push (.scalar false (String.ofList text)) column

/-- Reads a text in quotes. -/
def quoted? (single : Bool) (s : Lexer) : Option Lexer := do
  let column := s.column
  let s := { s.saveKey with keyAllowed := false }
  let (text, c) ← Yaml.quoted? single s.indent s.inFlow s.cursor
  let s ← skipToToken? (c.rest.length + 1) { s with cursor := c }
  return { s with adjacentIndex := s.cursor.index }.push (.scalar false (String.ofList text)) column

/-- Reads a plain text. -/
def plain? (s : Lexer) : Option Lexer := do
  let column := s.column
  let s := { s.saveKey with keyAllowed := false }.dropLoose
  let (text, c) ← Yaml.plain? s.indent s.inFlow s.cursor
  return { s with cursor := c, keyAllowed := c.isLeading }.push
    (.scalar true (String.ofList text)) column

/-! ## Texts -/

/-- Reads the token that begins here, at a character. -/
def tokenAt? (s : Lexer) : Option Lexer :=
  let c := s.cursor
  let behind := c.peek 1
  let x := c.head
  if x == '[' then s.flowStart? .flowSequenceStart
  else if x == '\x7b' then s.flowStart? .flowMappingStart
  else if x == ']' then s.flowEnd? .flowSequenceEnd
  else if x == '\x7d' then s.flowEnd? .flowMappingEnd
  else if x == ',' then s.flowEntry?
  else if x == '-' && isGap behind then s.blockEntry?
  else if x == '?' && isGap behind then s.key?
  else if x == ':' && (isGap behind
      || (s.inFlow && (isFlowSign behind || c.index == s.adjacentIndex))) then s.value?
  else if x == '*' then s.anchor? true
  else if x == '&' then s.anchor? false
  else if x == '!' then s.tag?
  else if x == '|' && !s.inFlow then s.block? true
  else if x == '>' && !s.inFlow then s.block? false
  else if x == '\'' then s.quoted? true
  else if x == '"' then s.quoted? false
  else if x ∈ ['%', '@', '\x60'] then none
  else s.plain?

/-- Reads one token; at the end of the text gives the tokens of all that is open. -/
def next? (s : Lexer) : Option (Lexer ⊕ Lexer) := do
  let s ← skipToToken? (s.cursor.rest.length + 1) s
  let s ← s.refreshKeys?
  let s := s.unroll s.column
  let c := s.cursor
  if c.atEnd then
    if s.keys.any fun place => place.isPossible && place.isRequired then none
    else return .inr (s.unroll (-1))
  else if c.column == 0 && c.head == '%' then return .inl (← s.directive?)
  else if c.atMarker '-' then return .inl (← s.documentSign? .documentStart)
  else if c.atMarker '.' then return .inl (← s.documentSign? .documentEnd)
  else if (c.column : Int) < s.indent then none
  else return .inl (← s.tokenAt?)

/-- Reads all tokens. -/
def run? : (fuel : Nat) → Lexer → Option Lexer
  | 0, _ => none
  | fuel + 1, s =>
    match s.next? with
    | some (.inl s) => run? fuel s
    | some (.inr s) => some s
    | none => none

end Lexer

/-- The tokens of a text. -/
def tokens? (text : String) : Option (List Token) :=
  let s := Lexer.start text
  (s.run? (s.cursor.rest.length + 1)).map fun s => (s.tokens.map (·.1)).reverse

end YangSchema.Yaml
