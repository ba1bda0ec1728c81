import YangSchema.Binary64

/-!
# Values of settings

What a settings file or a variable gives for a setting, before it is known which kind of value the
setting takes. A switch is also set by a number, which is off if it is zero, and by one of a few
words; a text is also set by a switch, a number or a moment, by its written form.
-/

namespace YangSchema

/-- A value that a setting can be given. -/
inductive SettingValue where
  | absent
  | bool (b : Bool)
  | integer (n : Int)
  | real (x : Binary64)
  | text (s : String)
  /-- A date, a time of day, or both, by its written form. -/
  | moment (written : String)
  | list (items : List SettingValue)
  | table (entries : List (String × SettingValue))
  deriving Repr, Inhabited

namespace SettingValue

/-- The state of a switch that a word stands for. -/
def boolOfWord? (word : String) : Option Bool :=
  let word := String.ofList (word.toList.map Char.toLower)
  if word ∈ ["1", "true", "on", "yes"] then some true
  else if word ∈ ["0", "false", "off", "no"] then some false
  else none

/-- The state of a switch. -/
def bool? : SettingValue → Option Bool
  | .bool b => some b
  | .integer n => some (n ≠ 0)
  | .real x => some (!x.isZero)
  | .text s => boolOfWord? s
  | _ => none

/-- A text. -/
def text? : SettingValue → Option String
  | .text s => some s
  | .moment written => some written
  | .bool b => some (if b then "true" else "false")
  | .integer n => some (toString n)
  | .real x => some x.text
  | _ => none

/-- Puts an entry in front of others unless its key comes again. -/
def consEntry (key : String) (v : SettingValue) (es : List (String × SettingValue)) :
    List (String × SettingValue) :=
  if (es.lookup key).isSome then es else (key, v) :: es

end SettingValue

end YangSchema
