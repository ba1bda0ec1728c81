import YangSchema.Binary64
import YangSchema.Settings.Value

/-!
# Reading RON

`Ron.parse?` reads a document: lines that enable extensions, then one value. Values are words,
numbers, texts, characters, lists in brackets, maps in braces, and structures in parentheses with a
name in front or without one. A structure has named fields, or values in their order; one without
parentheses is empty, and so is `()`. An optional value is `None`, or stands in the parentheses of
`Some`. Values nest to a bounded depth.

Blanks and comments can stand between all parts. Comments between `/*` and `*/` nest.
-/

namespace YangSchema.Ron

/-! ## Blanks and comments -/

/-- Whether a character is a blank. -/
def isSpace (c : Char) : Bool := c == ' ' || c == '\t' || c == '\n' || c == '\r'

/-- What is behind the end of a comment in which `inner` more comments have begun. -/
def behindComment? (inner : Nat) : List Char → Option (List Char)
  | [] => none
  | '/' :: '*' :: rest => behindComment? (inner + 1) rest
  | '*' :: '/' :: rest => if inner = 0 then some rest else behindComment? (inner - 1) rest
  | _ :: rest => behindComment? inner rest

/-- Drops blanks and comments. -/
def skipFrom? : (fuel : Nat) → List Char → Option (List Char)
  | 0, cs => some cs
  | fuel + 1, '/' :: '/' :: rest => skipFrom? fuel (rest.dropWhile (· != '\n'))
  | fuel + 1, '/' :: '*' :: rest => (behindComment? 0 rest).bind (skipFrom? fuel)
  | _, '/' :: _ => none
  | fuel + 1, c :: rest => if isSpace c then skipFrom? fuel rest else some (c :: rest)
  | _, [] => some []

/-- Drops blanks and comments. -/
def skip? (cs : List Char) : Option (List Char) := skipFrom? (cs.length + 1) cs

/-- What is behind a character, and behind the blanks after it. -/
def expect? (c : Char) : List Char → Option (List Char)
  | x :: rest => if x = c then skip? rest else none
  | [] => none

/-! ## Names -/

/-- Whether a character can begin a name. -/
def beginsName (c : Char) : Bool := ('a' ≤ c && c ≤ 'z') || ('A' ≤ c && c ≤ 'Z') || c == '_'

/-- Whether a character can stand in a name. -/
def isNameChar (c : Char) : Bool := beginsName c || Text.isDigit c

/-- Whether a character can stand in a name behind `r#`. -/
def isRawChar (c : Char) : Bool := isNameChar c || c == '.' || c == '+' || c == '-'

/-- Reads a name. -/
def name? (cs : List Char) : Option (String × List Char) :=
  match cs with
  | [] => none
  | ['r'] => none
  | 'r' :: '"' :: _ => none
  | 'r' :: '#' :: rest =>
    let (name, rest) := rest.span isRawChar
    if name.isEmpty then none else some (String.ofList name, rest)
  | 'r' :: rest =>
    let (name, rest) := rest.span isNameChar
    some (String.ofList ('r' :: name), rest)
  | c :: _ =>
    let (name, rest) := cs.span isNameChar
    if !beginsName c || rest.head?.any isRawChar then none else some (String.ofList name, rest)

/-- What is behind a word that is not the beginning of a longer name. -/
def word? (word : String) (cs : List Char) : Option (List Char) :=
  let rest := cs.drop word.length
  if word.toList.isPrefixOf cs && !rest.head?.any isNameChar then some rest else none

/-! ## Texts -/

/-- The character that a character stands for behind a backslash. -/
def escapedChar? (c : Char) : Option Char :=
  if c = '\'' ∨ c = '"' ∨ c = '\\' then some c
  else if c = 'n' then some '\n'
  else if c = 'r' then some '\r'
  else if c = 't' then some '\t'
  else if c = '0' then some '\x00'
  else none

/-- Reads an escaped form behind its backslash. -/
def escape? : List Char → Option (Char × List Char)
  | 'x' :: a :: b :: rest => do return (Char.ofNat (← Text.hexNumber? [a, b]), rest)
  | 'u' :: '\x7b' :: rest => do
    let (digits, rest) := rest.span (· != '\x7d')
    if digits.isEmpty ∨ 6 < digits.length ∨ rest.isEmpty then none
    else return (← Text.charOfNumber? (← Text.hexNumber? digits), rest.drop 1)
  | c :: rest => (escapedChar? c).map fun c => (c, rest)
  | [] => none

/-- Reads a text behind its opening quote. -/
def quoted? : (fuel : Nat) → List Char → Option (List Char × List Char)
  | 0, _ => none
  | _, [] => none
  | _, '"' :: rest => some ([], rest)
  | fuel + 1, '\\' :: rest => do
    let (c, rest) ← escape? rest
    let (text, rest) ← quoted? fuel rest
    return (c :: text, rest)
  | fuel + 1, c :: rest => (quoted? fuel rest).map fun p => (c :: p.1, p.2)

/-- Reads a text up to an ending. -/
def upTo? (ending : List Char) : List Char → Option (List Char × List Char)
  | [] => none
  | c :: cs =>
    if ending.isPrefixOf (c :: cs) then some ([], (c :: cs).drop ending.length)
    else (upTo? ending cs).map fun p => (c :: p.1, p.2)

/-- Reads a text in quotes, or one between quotes and any number of `#` behind `r`, which has no
escaped forms. -/
def string? : List Char → Option (List Char × List Char)
  | '"' :: rest => quoted? (rest.length + 1) rest
  | 'r' :: rest =>
    let (marks, rest) := rest.span (· == '#')
    match rest with
    | '"' :: rest => upTo? ('"' :: marks) rest
    | _ => none
  | _ => none

/-- Reads a character in single quotes. -/
def character? : List Char → Option (List Char × List Char)
  | '\'' :: '\\' :: rest =>
    match escape? rest with
    | some (c, '\'' :: rest) => some ([c], rest)
    | _ => none
  | '\'' :: c :: '\'' :: rest => if c = '\'' then none else some ([c], rest)
  | _ => none

/-! ## Numbers -/

/-- Whether a character can stand in an integer. -/
def isIntegerChar (c : Char) : Bool := (Text.hexValue? c).isSome || c == '_'

/-- Whether a character can stand in a number with a point or an exponent. -/
def isRealChar (c : Char) : Bool := Text.isDigit c || c ∈ ['e', 'E', '.', '+', '-', '_']

/-- The base of an integer and what is behind its mark. -/
def splitBase : List Char → Nat × List Char
  | '0' :: 'x' :: rest => (16, rest)
  | '0' :: 'b' :: rest => (2, rest)
  | '0' :: 'o' :: rest => (8, rest)
  | cs => (10, cs)

/-- Reads an integer without sign. -/
def natural? (cs : List Char) : Option (Nat × List Char) := do
  let (base, cs) := splitBase cs
  let (digits, rest) := cs.span isIntegerChar
  if digits.isEmpty ∨ digits.head? = some '_' then none
  let values ← (digits.filter (· != '_')).mapM Text.hexValue?
  if values.any (base ≤ ·) then none
  return (values.foldl (fun n d => n * base + d) 0, rest)

/-- Reads an integer of 64 bits, with or without a sign. -/
def integer? (cs : List Char) : Option (Int × List Char) :=
  match cs with
  | '-' :: cs =>
    ((natural? cs).map fun p => (-(p.1 : Int), p.2)).filter (Text.signedMin 64 ≤ ·.1)
  | '+' :: cs => ((natural? cs).map fun p => ((p.1 : Int), p.2)).filter (·.1 ≤ Text.signedMax 64)
  | cs => ((natural? cs).map fun p => ((p.1 : Int), p.2)).filter (·.1 ≤ Text.wordMax 64)

/-- Reads a number with a point or an exponent, or a word for one that is not finite. -/
def real? (cs : List Char) : Option (Binary64 × List Char) :=
  let words := ["inf", "+inf", "-inf", "NaN", "+NaN", "-NaN"]
  match words.findSome? fun w => (word? w cs).map fun rest => (w, rest) with
  | some (w, rest) => (Binary64.ofString? w).map fun x => (x, rest)
  | none =>
    let (written, rest) := cs.span isRealChar
    (Binary64.ofString? (String.ofList written)).map fun x => (x, rest)

/-- Reads a number: an integer if it can be one. One that is too great for 64 bits with a sign is no
integer. -/
def number? (cs : List Char) : Option (SettingValue × List Char) :=
  let behindSign := if cs.head? = some '+' ∨ cs.head? = some '-' then cs.drop 1 else cs
  let isReal := (behindSign.takeWhile isIntegerChar).length
    < (behindSign.takeWhile isRealChar).length
  match (if isReal then none else integer? cs) with
  | some (n, rest) =>
    if n ≤ Text.signedMax 64 then some (.integer n, rest)
    else some (.real (.ofDecimal false n.toNat 0), rest)
  | none => (real? cs).map fun p => (.real p.1, p.2)

/-! ## Values -/

/-- The words that stand for values. -/
def words : List (String × SettingValue) := [
  ("true", .bool true), ("false", .bool false), ("None", .absent),
  ("inf", .real (.infinite false)), ("-inf", .real (.infinite true)), ("NaN", .real .nan)]

/-- Whether parentheses, behind the opening one, hold named fields; `none` if nothing tells. -/
def hasFields? (cs : List Char) : Option Bool :=
  match name? cs with
  | none => some false
  | some (_, rest) =>
    match skip? rest with
    | some (c :: _) => some (c == ':')
    | _ => none

/-- The number of values with parts that can stand inside each other. -/
def nestingLimit : Nat := 128

/-- The depth that is left inside a value with parts, where `depth` is left for the value itself. -/
def inside? (depth : Nat) : Option Nat := if depth = 0 then none else some (depth - 1)

mutual

/-- Reads a value in which at most `depth` values with parts stand inside each other. -/
def value? : (fuel depth : Nat) → List Char → Option (SettingValue × List Char)
  | 0, _, _ => none
  | fuel + 1, depth, cs =>
    match words.findSome? fun w => (word? w.1 cs).map fun rest => (w.2, rest) with
    | some found => some found
    | none =>
      match word? "Some" cs with
      | some rest => do
        let (v, rest) ← value? fuel (← inside? depth) (← expect? '(' (← skip? rest))
        match ← skip? rest with
        | ')' :: rest => return (v, rest)
        | rest =>
          match ← expect? ',' rest with
          | ')' :: rest => return (v, rest)
          | _ => none
      | none =>
        match name? cs with
        | some (_, rest) => do structure? fuel depth (← skip? rest)
        | none =>
          match cs with
          | '(' :: ')' :: rest => some (.absent, rest)
          | '(' :: _ => structure? fuel depth cs
          | '[' :: rest => do
            let (vs, rest) ← items? ']' fuel (← inside? depth) rest
            return (.list vs, rest)
          | '\x7b' :: rest => do
            let (es, rest) ← entries? fuel (← inside? depth) rest
            return (.table es, rest)
          | '\'' :: _ => (character? cs).map fun p => (.text (String.ofList p.1), p.2)
          | c :: _ =>
            if c = '"' ∨ c = 'r' then (string? cs).map fun p => (.text (String.ofList p.1), p.2)
            else if c = '.' then (real? cs).map fun p => (.real p.1, p.2)
            else if Text.isDigit c ∨ c = '+' ∨ c = '-' then number? cs
            else none
          | [] => none

/-- Reads a structure behind its name. -/
def structure? : (fuel depth : Nat) → List Char → Option (SettingValue × List Char)
  | 0, _, _ => none
  | fuel + 1, depth, cs =>
    match cs with
    | '(' :: rest => do
      if ← hasFields? (← skip? rest) then
        let (es, rest) ← fields? fuel (← inside? depth) rest
        return (.table es, rest)
      else
        let (vs, rest) ← items? ')' fuel (← inside? depth) rest
        return (.list vs, rest)
    | cs => some (.absent, cs)

/-- Reads values with commas between them up to an ending. -/
def items? (ending : Char) :
    (fuel depth : Nat) → List Char → Option (List SettingValue × List Char)
  | 0, _, _ => none
  | fuel + 1, depth, cs => do
    match ← skip? cs with
    | [] => none
    | c :: rest =>
      if c = ending then return ([], rest)
      let (v, rest) ← value? fuel depth (c :: rest)
      match ← skip? rest with
      | ',' :: rest =>
        let (vs, rest) ← items? ending fuel depth rest
        return (v :: vs, rest)
      | x :: rest => if x = ending then return ([v], rest) else none
      | [] => none

/-- Reads the named fields of a structure up to its closing parenthesis. Of several fields with the
same name only the last counts. -/
def fields? :
    (fuel depth : Nat) → List Char → Option (List (String × SettingValue) × List Char)
  | 0, _, _ => none
  | fuel + 1, depth, cs => do
    match ← skip? cs with
    | ')' :: rest => return ([], rest)
    | cs =>
      let (name, rest) ← name? cs
      let (v, rest) ← value? fuel depth (← expect? ':' (← skip? rest))
      match ← skip? rest with
      | ',' :: rest =>
        let (es, rest) ← fields? fuel depth rest
        return (SettingValue.consEntry name v es, rest)
      | ')' :: rest => return ([(name, v)], rest)
      | _ => none

/-- Reads the entries of a map up to its closing brace; its keys are texts. -/
def entries? :
    (fuel depth : Nat) → List Char → Option (List (String × SettingValue) × List Char)
  | 0, _, _ => none
  | fuel + 1, depth, cs => do
    match ← skip? cs with
    | '\x7d' :: rest => return ([], rest)
    | cs =>
      let (key, rest) ← (string? cs).or (character? cs)
      let (v, rest) ← value? fuel depth (← expect? ':' (← skip? rest))
      match ← skip? rest with
      | ',' :: rest =>
        let (es, rest) ← entries? fuel depth rest
        return (SettingValue.consEntry (String.ofList key) v es, rest)
      | '\x7d' :: rest => return ([(String.ofList key, v)], rest)
      | _ => none

end

/-! ## Documents -/

/-- The extensions that can be enabled. They make no difference to the values read here. -/
def extensions : List String := ["unwrap_newtypes", "implicit_some", "unwrap_variant_newtypes"]

/-- Reads the names of extensions up to the closing parenthesis. -/
def extensionNames? : (fuel : Nat) → List Char → Option (List Char)
  | 0, _ => none
  | fuel + 1, cs => do
    let (name, rest) ← name? cs
    if name ∈ extensions then
      match ← skip? rest with
      | ')' :: rest => skip? rest
      | rest =>
        match ← expect? ',' rest with
        | ')' :: rest => skip? rest
        | rest => extensionNames? fuel rest
    else none

/-- What is behind the lines that enable extensions. -/
def skipAttributes? : (fuel : Nat) → List Char → Option (List Char)
  | fuel + 1, '#' :: rest => do
    let rest ← expect? '[' (← expect? '!' (← skip? rest))
    if "enable".toList.isPrefixOf rest then
      let rest ← expect? '(' (← skip? (rest.drop 6))
      let rest ← extensionNames? (rest.length + 1) rest
      skipAttributes? fuel (← expect? ']' rest)
    else none
  | _, cs => some cs

/-- Reads a document: the keys of its map or structure with their values. -/
def parse? (text : String) : Option (List (String × SettingValue)) := do
  let cs ← skip? text.toList
  let cs ← skipAttributes? cs.length cs
  match ← value? (2 * cs.length + 2) nestingLimit cs with
  | (.table es, rest) => if (← skip? rest).isEmpty then return es else none
  | _ => none

end YangSchema.Ron
