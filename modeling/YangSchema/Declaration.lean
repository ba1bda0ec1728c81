import YangSchema.Tree
import YangSchema.Statement
import YangSchema.SourceId
import YangSchema.Grammar.Substatement

/-!
# Declarations

A declaration is a statement whose keyword has been bound: to a built-in kind, to an extension, or
to nothing because it stands inside the content of an extension. It knows its place, the number of
statements before it in its source when every statement comes before its substatements.
-/

namespace YangSchema

/-- What a keyword is bound to. -/
inductive Binding where
  | builtin (kind : Kind)
  /-- An extension that `module` declares. -/
  | extension (module : SourceId) (name : String)
  /-- Content of an extension, which is not interpreted. -/
  | uninterpreted
  deriving Repr, DecidableEq, Inhabited

namespace Binding

/-- The built-in kind, if the keyword is bound to one. -/
def kind? : Binding → Option Kind
  | .builtin k => some k
  | _ => none

/-- How listings show a binding. -/
def text : Binding → String
  | .builtin k => k.keyword
  | .extension module name => "extension " ++ name ++ " of " ++ module.text
  | .uninterpreted => "opaque"

end Binding

/-- A bound statement apart from its substatements. -/
structure Declared extends Head where
  /-- The number of statements before it in its source. -/
  place : Nat
  binding : Binding
  deriving Repr, DecidableEq, Inhabited

/-- A bound statement with its substatements. -/
abbrev Declaration := Tree Declared

namespace Declaration

/-- The built-in kind of a declaration, if it has one. -/
def kind? (d : Declaration) : Option Kind := d.label.binding.kind?

/-- Whether a declaration is of a built-in kind. -/
def is (d : Declaration) (kind : Kind) : Bool := d.kind? == some kind

/-- The argument of a declaration, empty if it has none. -/
def argumentText (d : Declaration) : String := d.label.argument.getD ""

/-- The substatements of a built-in kind. -/
def childrenOfKind (d : Declaration) (kind : Kind) : List Declaration :=
  d.children.filter (is · kind)

/-- The first substatement of a built-in kind. -/
def firstChild? (d : Declaration) (kind : Kind) : Option Declaration :=
  d.children.find? (is · kind)

/-- The argument of the first substatement of a built-in kind. -/
def childArgument? (d : Declaration) (kind : Kind) : Option String :=
  (d.firstChild? kind).bind (·.label.argument)

/-- How many substatements are of a built-in kind. -/
def count (d : Declaration) (kind : Kind) : Nat := (d.childrenOfKind kind).length

end Declaration

end YangSchema
