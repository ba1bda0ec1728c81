import YangSchema.Text.Blank
import YangSchema.Text.Split

/-!
# Schema paths

A schema path names a node by the names of the nodes on the way to it, separated by slashes. It is
absolute if it starts with a slash. Blanks around a step and empty steps do not count. A step can
have a prefix, which the first colon separates from the name.
-/

namespace YangSchema

/-- One step of a schema path. -/
structure Step where
  qualifier : Option String
  name : String
  deriving Repr, DecidableEq

namespace Step

/-- Reads a step; every text is one. -/
def ofString (text : String) : Step :=
  match Text.splitOnce? ':' text with
  | some (p, n) => ⟨some p, n⟩
  | none => ⟨none, text⟩

/-- The written form. -/
def text (s : Step) : String :=
  match s.qualifier with
  | some p => p ++ ":" ++ s.name
  | none => s.name

end Step

namespace SchemaPath

/-- Whether a path starts with a slash. -/
def isAbsolute (path : String) : Bool := path.toList.head? == some '/'

/-- The steps of a path, blanks around it apart. -/
def stepsOf (path : String) : List Step :=
  (((Text.splitAll '/' path).map Text.trim).filter (· != "")).map Step.ofString

/-- The steps of a path, if it has any and is absolute as wanted. -/
def steps? (absolute : Bool) (path : String) : Option (List Step) :=
  let path := Text.trim path
  if isAbsolute path = absolute && !(stepsOf path).isEmpty then some (stepsOf path) else none

end SchemaPath

end YangSchema
