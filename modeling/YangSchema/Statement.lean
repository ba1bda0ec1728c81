import YangSchema.Tree
import YangSchema.Location
import YangSchema.Keyword
import YangSchema.Version

/-!
# Statement trees

A statement has a keyword, an optional argument and substatements. The tree is what a text means
before any keyword is interpreted.
-/

namespace YangSchema

/-- What a statement says apart from its substatements. -/
structure Head where
  keyword : Keyword
  argument : Option String
  location : Location
  deriving Repr, DecidableEq, Inhabited

/-- A statement with its substatements. -/
abbrev Statement := Tree Head

namespace Statement

/-- The keyword of a statement. -/
def keyword (s : Statement) : Keyword := s.label.keyword

/-- The argument of a statement. -/
def argument (s : Statement) : Option String := s.label.argument

/-- The location of a statement. -/
def location (s : Statement) : Location := s.label.location

/-- Whether a statement has the unprefixed keyword `name`. -/
def isNamed (name : String) (s : Statement) : Bool :=
  s.keyword.qualifier.isNone && s.keyword.identifier == name

/-- The substatements with the unprefixed keyword `name`. -/
def childrenNamed (s : Statement) (name : String) : List Statement :=
  s.children.filter (isNamed name)

/-- The first substatement with the unprefixed keyword `name`. -/
def firstChild? (s : Statement) (name : String) : Option Statement :=
  s.children.find? (isNamed name)

/-- The language version that a root statement declares: version 1 without a `yang-version`
statement, `none` if the first such statement names no known version. -/
def declaredVersion? (s : Statement) : Option Version :=
  match s.firstChild? "yang-version" with
  | some v => v.argument.bind Version.ofString?
  | none => some .v1

end Statement

end YangSchema
