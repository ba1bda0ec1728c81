import YangSchema.Settings.Value
import YangSchema.Toml.Moment

/-!
# Tables of a TOML document

A table comes to be in one of three ways: a header or braces state it, a header of a table below
implies it, or a key with dots leads through it. This decides what may be added later: a header can
state a table that was only implied, a key with dots can lead only through tables that were not
stated, and it can add only to a table that such a key has made. No key is ever given twice. A table
that is stated after it was implied takes its place behind the others.

A table whose first key is `momentKey` is no table but the moment that the text behind this key
gives.
-/

namespace YangSchema.Toml

/-- How a table came to be. -/
inductive Standing where
  | stated
  | implied
  | dotted
  deriving Repr, DecidableEq

/-- What a key leads to: a value, a table, or a list of stated tables. -/
inductive Entry where
  | value (v : SettingValue)
  | table (standing : Standing) (entries : List (String × Entry))
  | tables (items : List (List (String × Entry)))

/-- The content of a table. -/
abbrev Entries := List (String × Entry)

/-- Changes what a key leads to, or adds the key. -/
def setEntry (es : Entries) (key : String) (e : Entry) : Entries :=
  if (es.lookup key).isSome then es.map fun p => if p.1 = key then (key, e) else p
  else es ++ [(key, e)]

/-- Changes the table to which keys lead, making the tables on the way that are missing; `dotted`
says that the keys are those of a key with dots. -/
def modifyTable (dotted : Bool) (f : Standing → Entries → Option Entries) (standing : Standing) :
    List String → Entries → Option Entries
  | [], es => f standing es
  | key :: keys, es =>
    match es.lookup key with
    | none =>
      let made := if dotted then Standing.dotted else .implied
      (modifyTable dotted f made keys []).map fun sub => setEntry es key (.table made sub)
    | some (.value _) => none
    | some (.table s sub) =>
      if dotted ∧ s = .stated then none
      else (modifyTable dotted f s keys sub).map fun sub => setEntry es key (.table s sub)
    | some (.tables items) =>
      match items.getLast? with
      | none => none
      | some last =>
        (modifyTable dotted f .stated keys last).map fun sub =>
          setEntry es key (.tables (items.dropLast ++ [sub]))

/-- Adds a value under the last of some keys to the table in which these are written. -/
def addValue (keys : List String) (v : SettingValue) (standing : Standing) (es : Entries) :
    Option Entries :=
  let behindDots := 1 < keys.length
  let key := keys.getLastD ""
  let add := fun (s : Standing) (es : Entries) =>
    if (s = .dotted) ≠ behindDots ∨ (es.lookup key).isSome then none
    else some (es ++ [(key, .value v)])
  modifyTable true add standing keys.dropLast es

/-- Adds a value to the table that a header has stated. -/
def addUnder (header keys : List String) (v : SettingValue) (root : Entries) : Option Entries :=
  modifyTable false (addValue keys v) .stated header root

/-- States a table. -/
def stateTable (header : List String) (root : Entries) : Option Entries :=
  let key := header.getLastD ""
  let state := fun (_ : Standing) (es : Entries) =>
    match es.lookup key with
    | none => some (es ++ [(key, .table .stated [])])
    | some (.table .implied sub) =>
      some ((es.filter fun e => e.1 ≠ key) ++ [(key, .table .stated sub)])
    | some _ => none
  modifyTable false state .stated header.dropLast root

/-- States one more table of a list of tables. -/
def stateItem (header : List String) (root : Entries) : Option Entries :=
  let key := header.getLastD ""
  let state := fun (_ : Standing) (es : Entries) =>
    match es.lookup key with
    | none => some (es ++ [(key, .tables [[]])])
    | some (.tables items) => some (setEntry es key (.tables (items ++ [[]])))
    | some _ => none
  modifyTable false state .stated header.dropLast root

/-- The key of a table that stands for a moment. -/
def momentKey : String := "$__toml_private_datetime"

/-- The value of a table with its entries. -/
def tableValue? (es : List (String × SettingValue)) : Option SettingValue :=
  match es with
  | (key, v) :: _ =>
    if key = momentKey then
      match v with
      | .text s => (moment? textBounds s.toList).map fun m => .moment (String.ofList m)
      | _ => none
    else some (.table es)
  | [] => some (.table [])

mutual

/-- The value of an entry. -/
def Entry.toValue? : Entry → Option SettingValue
  | .value v => some v
  | .table _ es => (entriesToValues? es).bind tableValue?
  | .tables items => (itemsToValues? items).map .list

/-- The values of the entries of a table. -/
def entriesToValues? : List (String × Entry) → Option (List (String × SettingValue))
  | [] => some []
  | (key, e) :: es => do return (key, ← e.toValue?) :: (← entriesToValues? es)

/-- The values of a list of tables. -/
def itemsToValues? : List (List (String × Entry)) → Option (List SettingValue)
  | [] => some []
  | es :: items => do return (← (← entriesToValues? es) |> tableValue?) :: (← itemsToValues? items)

end

/-- The keys with their values of a document, unless it stands for a moment. -/
def documentEntries? (es : Entries) : Option (List (String × SettingValue)) := do
  match ← tableValue? (← entriesToValues? es) with
  | .table es => return es
  | _ => none

end YangSchema.Toml
