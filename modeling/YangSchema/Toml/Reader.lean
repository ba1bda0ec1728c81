import YangSchema.Toml.Number
import YangSchema.Toml.Table
import YangSchema.Toml.Text

/-!
# Reading TOML

`Toml.parse?` reads a document. It consists of lines: a key with a value, the header of a table or
of one more table of a list, or nothing; a comment can end each of them. Arrays and tables in braces
nest to a bounded depth, and so do keys with dots.

A line break is a newline, with or without a carriage return in front; elsewhere a carriage return
is not allowed.
-/

namespace YangSchema.Toml

/-- How deep values can nest, and how long a key with dots can be. -/
def nestingLimit : Nat := 79

/-- A text with plain newlines. -/
def plainNewlines : List Char → List Char
  | '\r' :: '\n' :: rest => '\n' :: plainNewlines rest
  | c :: rest => c :: plainNewlines rest
  | [] => []

/-- Drops blanks inside a line. -/
def skipSpaces (cs : List Char) : List Char := cs.dropWhile isSpace

/-- What is behind a comment in front, up to the end of the line. -/
def skipComment? : List Char → Option (List Char)
  | '#' :: rest =>
    let rest := rest.dropWhile isPlain
    if rest.isEmpty || rest.head? == some '\n' then some rest else none
  | cs => some cs

/-- Drops blanks, comments and line breaks. -/
def skipLines? : (fuel : Nat) → List Char → Option (List Char)
  | 0, _ => none
  | fuel + 1, cs =>
    match skipSpaces cs with
    | '\n' :: rest => skipLines? fuel rest
    | '#' :: rest => (skipComment? ('#' :: rest)).bind (skipLines? fuel)
    | rest => some rest

/-- What is behind the end of a line on which nothing but a comment is left. -/
def endOfLine? (cs : List Char) : Option (List Char) :=
  match skipComment? (skipSpaces cs) with
  | some [] => some []
  | some ('\n' :: rest) => some rest
  | _ => none

/-! ## Keys -/

/-- Whether a character can stand in a key without quotes. -/
def isBare (c : Char) : Bool :=
  Text.isDigit c || ('a' ≤ c && c ≤ 'z') || ('A' ≤ c && c ≤ 'Z') || c == '_' || c == '-'

/-- Reads one part of a key. -/
def keyPart? (cs : List Char) : Option (String × List Char) :=
  match quotedKey? cs with
  | some (key, rest) => some (String.ofList key, rest)
  | none =>
    let (key, rest) := cs.span isBare
    if key.isEmpty then none else some (String.ofList key, rest)

/-- Reads a key: parts with dots between them, and blanks around these. -/
def keys? : (fuel : Nat) → List Char → Option (List String × List Char)
  | 0, _ => none
  | fuel + 1, cs => do
    let (key, rest) ← keyPart? (skipSpaces cs)
    match skipSpaces rest with
    | '.' :: rest =>
      let (keys, rest) ← keys? fuel rest
      return (key :: keys, rest)
    | rest => return ([key], rest)

/-! ## Values -/

/-- Whether a character can stand in a value without quotes. -/
def isPlainValue (c : Char) : Bool := isBare c || c == '+' || c == '.' || c == ':'

/-- Reads a value without quotes; a date can have a time behind a blank. -/
def plain? (cs : List Char) : Option (SettingValue × List Char) :=
  let (word, rest) := cs.span isPlainValue
  let longer := match rest with
    | ' ' :: more =>
      let (time, behind) := more.span isPlainValue
      if time.isEmpty then none
      else (moment? documentBounds (word ++ ' ' :: time)).map fun m =>
        (SettingValue.moment (String.ofList m), behind)
    | _ => none
  longer.or ((plainValue? word).map (·, rest))

/-- Reads the items of an array behind its bracket or a comma; `value` reads an item. -/
def items? (value : List Char → Option (SettingValue × List Char)) :
    (fuel : Nat) → List Char → Option (List SettingValue × List Char)
  | 0, _ => none
  | fuel + 1, cs => do
    match ← skipLines? (fuel + 1) cs with
    | ']' :: rest => return ([], rest)
    | cs =>
      let (v, rest) ← value cs
      match ← skipLines? (fuel + 1) rest with
      | ',' :: rest =>
        let (vs, rest) ← items? value fuel rest
        return (v :: vs, rest)
      | ']' :: rest => return ([v], rest)
      | _ => none

/-- Reads one key with its value. -/
def assignment? (value : List Char → Option (SettingValue × List Char)) (cs : List Char) :
    Option (List String × SettingValue × List Char) := do
  let (keys, rest) ← keys? nestingLimit cs
  match rest with
  | '=' :: rest =>
    let (v, rest) ← value (skipSpaces rest)
    return (keys, v, rest)
  | _ => none

/-- Reads the keys and values of a table in braces, of which there is at least one. -/
def assignments? (value : List Char → Option (SettingValue × List Char)) :
    (fuel : Nat) → Entries → List Char → Option (Entries × List Char)
  | 0, _, _ => none
  | fuel + 1, es, cs => do
    let (keys, v, rest) ← assignment? value cs
    let es ← addValue keys v .stated es
    match skipSpaces rest with
    | ',' :: rest => assignments? value fuel es rest
    | '\x7d' :: rest => return (es, rest)
    | _ => none

/-- Reads a table in braces behind the opening one. -/
def braces? (value : List Char → Option (SettingValue × List Char)) (cs : List Char) :
    Option (SettingValue × List Char) :=
  match skipSpaces cs with
  | '\x7d' :: rest => some (.table [], rest)
  | cs => do
    let (es, rest) ← assignments? value (cs.length + 1) [] cs
    return (← tableValue? (← entriesToValues? es), rest)

/-- Reads a value in which at most `depth` arrays and tables open inside each other. -/
def value? : (depth : Nat) → List Char → Option (SettingValue × List Char)
  | depth, '[' :: rest =>
    match depth with
    | 0 => none
    | depth + 1 => (items? (value? depth) (rest.length + 1) rest).map fun p => (.list p.1, p.2)
  | depth, '\x7b' :: rest =>
    match depth with
    | 0 => none
    | depth + 1 => braces? (value? depth) rest
  | _, '"' :: rest => (quotedText? ('"' :: rest)).map fun p => (.text (String.ofList p.1), p.2)
  | _, '\'' :: rest => (quotedText? ('\'' :: rest)).map fun p => (.text (String.ofList p.1), p.2)
  | _, cs => plain? cs

/-! ## Documents -/

/-- Reads a header behind its opening bracket, or two of them if it is one of a list. -/
def header? (isItem : Bool) (cs : List Char) : Option (List String × List Char) := do
  let (keys, rest) ← keys? nestingLimit cs
  match isItem, rest with
  | false, ']' :: rest => return (keys, ← endOfLine? rest)
  | true, ']' :: ']' :: rest => return (keys, ← endOfLine? rest)
  | _, _ => none

/-- Reads lines behind a header. -/
def lines? : (fuel : Nat) → (header : List String) → Entries → List Char → Option Entries
  | 0, _, _, _ => none
  | fuel + 1, header, root, cs =>
    match skipSpaces cs with
    | [] => some root
    | '\n' :: rest => lines? fuel header root rest
    | '#' :: rest => (endOfLine? ('#' :: rest)).bind (lines? fuel header root)
    | '[' :: '[' :: rest => do
      let (keys, rest) ← header? true rest
      lines? fuel keys (← stateItem keys root) rest
    | '[' :: rest => do
      let (keys, rest) ← header? false rest
      lines? fuel keys (← stateTable keys root) rest
    | cs => do
      let (keys, v, rest) ← assignment? (value? nestingLimit) cs
      lines? fuel header (← addUnder header keys v root) (← endOfLine? rest)

/-- What is behind a byte order mark in front. -/
def dropMark : List Char → List Char
  | '\uFEFF' :: cs => cs
  | cs => cs

/-- Reads a document: its keys with their values. -/
def parse? (text : String) : Option (List (String × SettingValue)) :=
  let cs := plainNewlines (dropMark text.toList)
  (lines? (cs.length + 1) [] [] cs).bind documentEntries?

end YangSchema.Toml
