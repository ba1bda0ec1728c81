import YangSchema.Settings.Value
import YangSchema.Text.Digits
import YangSchema.Text.Split

/-!
# Layers of settings

Settings are put together from layers, of which a later one adds to the earlier ones and replaces
what they set. Tables are merged key by key; every other value replaces what was there. Case does
not matter in keys.

A key of a layer can be a path, like `repository.path`. A path that leads through something that is
not a table, or not a list, puts an empty one in its place.
-/

namespace YangSchema

/-- A part of a path: a key of a table or a place in a list, counted from the end if negative. -/
inductive SettingStep where
  | key (name : String)
  | place (n : Int)
  deriving Repr, DecidableEq

namespace SettingStep

/-- Whether a character can stand in a key of a path. -/
def isKeyChar (c : Char) : Bool :=
  Text.isDigit c || ('a' ≤ c && c ≤ 'z') || ('A' ≤ c && c ≤ 'Z') || c ∈ [' ', '_', '-']

/-- Reads the place between brackets, a signed word of 64 bits; blanks around it do not count. -/
def placeOf? (cs : List Char) : Option (Int × List Char) := do
  let isSpace := fun c => c == ' ' || c == '\t'
  let cs := cs.dropWhile isSpace
  let (negative, cs) := match cs with
    | '-' :: cs => (true, cs)
    | cs => (false, cs)
  let (digits, rest) := cs.span Text.isDigit
  let n ← Text.natOfDigits? digits
  let place : Int := if negative then -(n : Int) else n
  match rest.dropWhile isSpace with
  | ']' :: rest =>
    if Text.signedMin 64 ≤ place ∧ place ≤ Text.signedMax 64 then return (place, rest) else none
  | _ => none

/-- Reads the parts of a path behind the first key. -/
def stepsBehind? : (fuel : Nat) → List Char → Option (List SettingStep)
  | _, [] => some []
  | 0, _ => none
  | fuel + 1, '.' :: cs =>
    let (name, rest) := cs.span isKeyChar
    if name.isEmpty then none
    else (stepsBehind? fuel rest).map (.key (String.ofList name) :: ·)
  | fuel + 1, '[' :: cs => do
    let (n, rest) ← placeOf? cs
    return .place n :: (← stepsBehind? fuel rest)
  | _, _ => none

/-- The parts of a key; one that is no path is a single part. -/
def ofString (text : String) : List SettingStep :=
  let (name, rest) := text.toList.span isKeyChar
  if name.isEmpty then [.key text]
  else
    match stepsBehind? rest.length rest with
    | some steps => .key (String.ofList name) :: steps
    | none => [.key text]

end SettingStep

namespace SettingValue

/-- The form of a key in which case does not matter. -/
def plainKey (key : String) : String := String.ofList (key.toList.map Char.toLower)

/-- The entries of a table; other values have none. -/
def entries : SettingValue → List (String × SettingValue)
  | .table es => es
  | _ => []

/-- The items of a list; other values have none. -/
def items : SettingValue → List SettingValue
  | .list vs => vs
  | _ => []

/-- The value of a key, absent if there is none. -/
def get? (v : SettingValue) (key : String) : Option SettingValue := v.entries.lookup (plainKey key)

/-- Puts a value under a key of a table. -/
def put (here : SettingValue) (key : String) (v : SettingValue) : SettingValue :=
  let key := plainKey key
  if (here.entries.lookup key).isSome then
    .table (here.entries.map fun e => if e.1 = key then (key, v) else e)
  else .table (here.entries ++ [(key, v)])

mutual

/-- Sets a key to a value; a table is merged with the one that is there. -/
def set (here : SettingValue) (key : String) : SettingValue → SettingValue
  | .table es => here.put key (setAll ((here.get? key).getD (.table [])) es)
  | v => here.put key v

/-- Sets several keys, one after the other. -/
def setAll (here : SettingValue) : List (String × SettingValue) → SettingValue
  | [] => here
  | (key, v) :: es => setAll (here.set key v) es

end

/-- The place in a list of some length that a number means. -/
def placeIn (n : Int) (length : Nat) : Nat := if 0 ≤ n then n.toNat else length - n.natAbs

/-- Puts a value at a place of a list, which grows as needed. -/
def putItem (here : SettingValue) (place : Nat) (v : SettingValue) : SettingValue :=
  let padded := here.items ++ List.replicate (place + 1 - here.items.length) .absent
  .list (padded.set place v)

/-- Sets what a path leads to. -/
def setPath (v : SettingValue) : List SettingStep → SettingValue → SettingValue
  | [], here => here
  | [.key name], here => here.set name v
  | [.place n], here => here.putItem (placeIn n here.items.length) v
  | .key name :: rest, here => here.put name (setPath v rest ((here.get? name).getD .absent))
  | .place n :: rest, here =>
    let place := placeIn n here.items.length
    here.putItem place (setPath v rest (here.items[place]?.getD .absent))

/-- Lays the keys of a layer over what is there. -/
def overlay (here : SettingValue) (layer : List (String × SettingValue)) : SettingValue :=
  layer.foldl (fun here e => setPath e.2 (SettingStep.ofString e.1) here) here

end SettingValue

end YangSchema
