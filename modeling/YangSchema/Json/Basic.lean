import YangSchema.Json.Escape

/-!
# JSON values

A value keeps its numbers and strings as they are written: a number by its digits, a string by what
stands between its quotes. So every written form is kept, also one that is no text (half a
character pair), and a reader of a field decides what it accepts.

`Json.render` writes a value without blanks, fields in their order.
-/

namespace YangSchema

/-- A JSON value. -/
inductive Json where
  | null
  | bool (value : Bool)
  /-- A number, as it is written. -/
  | number (written : List Char)
  /-- A string, as it is written between the quotes. -/
  | string (written : List Char)
  | array (items : List Json)
  | object (fields : List (List Char × Json))
  deriving Repr, Inhabited

namespace Json

/-- The string of a text. -/
def ofText (s : String) : Json := .string (escape s.toList)

/-- The number of an integer. -/
def ofInt (n : Int) : Json := .number (toString n).toList

/-- The number of a natural number. -/
def ofNat (n : Nat) : Json := .number (toString n).toList

/-- The object of named values. -/
def ofFields (fields : List (String × Json)) : Json :=
  .object (fields.map fun f => (escape f.1.toList, f.2))

/-- A field that is left out if the value is absent. -/
def optionalField (name : String) (value : Option Json) : List (String × Json) :=
  match value with
  | some j => [(name, j)]
  | none => []

/-- A field with an array that is left out if the array is empty. -/
def arrayField (name : String) (items : List Json) : List (String × Json) :=
  if items.isEmpty then [] else [(name, .array items)]

/-! ## Writing -/

/-- A written string, with its quotes, in front of `rest`. -/
def writeString (written rest : List Char) : List Char := '"' :: (written ++ '"' :: rest)

mutual

/-- The written form of a value in front of `rest`. -/
def write : Json → List Char → List Char
  | .null, rest => 'n' :: 'u' :: 'l' :: 'l' :: rest
  | .bool true, rest => 't' :: 'r' :: 'u' :: 'e' :: rest
  | .bool false, rest => 'f' :: 'a' :: 'l' :: 's' :: 'e' :: rest
  | .number written, rest => written ++ rest
  | .string written, rest => writeString written rest
  | .array [], rest => '[' :: ']' :: rest
  | .array (j :: js), rest => '[' :: write j (writeItems js (']' :: rest))
  | .object [], rest => '\x7b' :: '\x7d' :: rest
  | .object (f :: fs), rest => '\x7b' :: writeField f (writeFields fs ('\x7d' :: rest))

/-- Further items, each behind a comma. -/
def writeItems : List Json → List Char → List Char
  | [], rest => rest
  | j :: js, rest => ',' :: write j (writeItems js rest)

/-- One field. -/
def writeField : List Char × Json → List Char → List Char
  | (key, j), rest => writeString key (':' :: write j rest)

/-- Further fields, each behind a comma. -/
def writeFields : List (List Char × Json) → List Char → List Char
  | [], rest => rest
  | f :: fs, rest => ',' :: writeField f (writeFields fs rest)

end

/-- The written form of a value. -/
def render (j : Json) : String := String.ofList (j.write [])

/-! ## Reading fields -/

/-- The text of a string. -/
def text? : Json → Option String
  | .string written => (unescape? written).map String.ofList
  | _ => none

/-- The text of a string, or nothing for `null`. -/
def optionalText? : Json → Option (Option String)
  | .null => some none
  | j => j.text?.map some

/-- The value of a number without sign, point or exponent that is at most `most`. -/
def natUpTo? (most : Nat) : Json → Option Nat
  | .number written => (Text.natOfDigits? written).filter (· ≤ most)
  | _ => none

/-- The value of the one field named `name`, if there is one; `none` if there are more. -/
def field? (fields : List (String × Json)) (name : String) : Option (Option Json) :=
  match fields.filter (·.1 == name) with
  | [] => some none
  | [f] => some (some f.2)
  | _ => none

/-- The values of a record with the given field names, in their order. A record is written as an
object, in which other fields are ignored and a field may be missing but not be repeated, or as an
array, in which fields may be missing at the end. -/
def record? (names : List String) : Json → Option (List (Option Json))
  | .object fields =>
    (fields.mapM fun f => (unescape? f.1).map fun key => (String.ofList key, f.2)).bind
      fun fields => names.mapM (field? fields)
  | .array items =>
    if items.length ≤ names.length then
      some (items.map some ++ List.replicate (names.length - items.length) none)
    else none
  | _ => none

end Json

end YangSchema
