import YangSchema.Statement

/-!
# Sources

A source is the root statement of one module or submodule, with a label that says where it comes
from.
-/

namespace YangSchema

/-- A source that has been read but not yet linked. -/
structure Source where
  origin : String
  root : Statement

end YangSchema
