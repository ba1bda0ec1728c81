/-!
# Language versions

A source is written in version 1 or version 1.1 of the language. Version 1 may also be written
`1.0`.
-/

namespace YangSchema

/-- A version of the language. -/
inductive Version where
  | v1
  | v1_1
  deriving Repr, DecidableEq, Inhabited

namespace Version

/-- Reads the argument of a `yang-version` statement. -/
def ofString? (text : String) : Option Version :=
  if text = "1" ∨ text = "1.0" then some .v1
  else if text = "1.1" then some .v1_1
  else none

/-- The written form. -/
def text : Version → String
  | .v1 => "1"
  | .v1_1 => "1.1"

instance : ToString Version := ⟨text⟩

/-- Whether what is defined since version `since` exists in version `v`. -/
def includes (v since : Version) : Bool :=
  match v, since with
  | .v1, .v1_1 => false
  | _, _ => true

/-- Reading undoes writing. -/
theorem ofString?_text (v : Version) : ofString? v.text = some v := by cases v <;> decide

end Version

end YangSchema
