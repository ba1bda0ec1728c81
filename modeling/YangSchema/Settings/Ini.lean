import YangSchema.Ini.Reader
import YangSchema.Settings.Value

/-!
# Settings in INI

In a settings file in INI all values are texts, and the sections are the tables. Of several entries
of a section with the same key, and of several sections with the same name, only the last counts.
-/

namespace YangSchema

namespace SettingValue

/-- The keys with their values that the entries of a section give, in front of others. -/
def consTexts (entries : List (String × String)) (es : List (String × SettingValue)) :
    List (String × SettingValue) :=
  entries.foldr (fun e es => consEntry e.1 (.text e.2) es) es

/-- Puts what a section gives in front of what the sections behind it give. -/
def consSection (s : Ini.Section) (es : List (String × SettingValue)) :
    List (String × SettingValue) :=
  match s.name with
  | none => consTexts s.entries es
  | some name => consEntry name (.table (consTexts s.entries [])) es

/-- The keys with their values that a text in INI gives. -/
def ofIniText? (text : String) : Option (List (String × SettingValue)) :=
  (Ini.parse? text).map fun sections => sections.foldr consSection []

end SettingValue

end YangSchema
