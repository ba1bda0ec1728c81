import YangSchema.Revision

/-!
# Qualified names

The qualified name of a schema node is its name together with the namespace and the revision of the
module to which it belongs. Qualified names are ordered by namespace, then by revision, the absent
one first, and then by name.
-/

namespace YangSchema

/-- A name with the namespace and the revision of its module. -/
structure QName where
  uri : String
  revision : Option Revision
  localName : String
  deriving Repr, DecidableEq

namespace QName

/-- The written form. -/
def text (q : QName) : String :=
  match q.revision with
  | some r => "(" ++ q.uri ++ "?revision=" ++ r.text ++ ")" ++ q.localName
  | none => "(" ++ q.uri ++ ")" ++ q.localName

instance : ToString QName := ⟨text⟩

/-- Compares by namespace, revision and name. -/
def compare (a b : QName) : Ordering :=
  (Ord.compare a.uri b.uri).then
    ((compareRevisions a.revision b.revision).then (Ord.compare a.localName b.localName))

/-- Whether `a` does not come after `b`. -/
def le (a b : QName) : Bool := (a.compare b).isLE

/-- Sorts qualified names. -/
def sort (qs : List QName) : List QName := qs.mergeSort le

end QName

end YangSchema
