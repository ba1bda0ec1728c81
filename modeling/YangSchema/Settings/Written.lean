import YangSchema.Settings
import YangSchema.Toml.Writer

/-!
# The written form of settings

Settings are written as a TOML document with all of them, so that it can be loaded again.
-/

namespace YangSchema

namespace Settings

/-- The line of a setting. -/
def line (key value : String) : String := key ++ " = " ++ value ++ "\n"

/-- The written form of a switch. -/
def switchText (b : Bool) : String := if b then "true" else "false"

/-- The document that holds the settings. -/
def text (s : Settings) : String :=
  "[reactor]\n"
    ++ line "parallel" (switchText s.build.parallel)
    ++ line "enforce_statement_order" (switchText s.build.enforceOrder)
    ++ "\n[repository]\n"
    ++ line "path" (Toml.written s.repository.path)
    ++ line "extension" (Toml.written s.repository.extension)
    ++ line "lenient_revisions" (switchText s.repository.lenientRevisions)

end Settings

end YangSchema
