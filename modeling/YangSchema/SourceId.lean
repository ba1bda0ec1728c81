import YangSchema.Revision
import YangSchema.Text.Split

/-!
# Source identifiers and file names

A source is identified by the name of its module or submodule and by its revision, if it has one. A
source without a revision is a source of its own: it does not stand for all revisions.

Identifiers are ordered by name and then by revision, the absent one first; so the greatest
identifier of a name belongs to its latest source.

A source is kept in a file named `name.yang` or `name@revision.yang`, or with another extension.
-/

namespace YangSchema

/-- The name and the revision of a source. -/
structure SourceId where
  name : String
  revision : Option Revision
  deriving Repr, DecidableEq

namespace SourceId

instance : Inhabited SourceId := ⟨"", none⟩

/-- The written form. -/
def text (id : SourceId) : String :=
  match id.revision with
  | some r => id.name ++ "@" ++ r.text
  | none => id.name

instance : ToString SourceId := ⟨text⟩

/-- Compares by name and then by revision. -/
def compare (a b : SourceId) : Ordering :=
  (Ord.compare a.name b.name).then (compareRevisions a.revision b.revision)

instance : Ord SourceId := ⟨compare⟩

/-- Whether `a` does not come after `b`. -/
def le (a b : SourceId) : Bool := (a.compare b).isLE

/-- Sorts identifiers. -/
def sort (ids : List SourceId) : List SourceId := ids.mergeSort le

/-! ## File names -/

/-- The extension of files that hold a source. -/
def defaultExtension : String := "yang"

/-- The name of the file in which a source is kept. -/
def fileName (id : SourceId) : String := id.text ++ "." ++ defaultExtension

/-- What can be wrong with a file name. -/
inductive FileNameFault where
  | extension (file extension : String)
  | emptyName (file : String)
  | revision (text : String)
  deriving Repr, DecidableEq

/-- A file name without its extension. -/
def stem? (file extension : String) : Option String :=
  let ending := '.' :: extension.toList
  if ending.isSuffixOf file.toList then
    some (String.ofList (file.toList.take (file.toList.length - ending.length)))
  else none

/-- The name in a file name and the text behind the first `@`, if there is one. -/
def splitFileName (file extension : String) :
    Except FileNameFault (String × Option String) :=
  match stem? file extension with
  | none => .error (.extension file extension)
  | some stem =>
    let (name, revision) := match Text.splitOnce? '@' stem with
      | some (name, revision) => (name, some revision)
      | none => (stem, none)
    if name = "" then .error (.emptyName file) else .ok (name, revision)

/-- The identifier that a file name gives; what is behind the `@` must be a revision. -/
def ofFileName (file extension : String) : Except FileNameFault SourceId :=
  match splitFileName file extension with
  | .error e => .error e
  | .ok (name, none) => .ok ⟨name, none⟩
  | .ok (name, some text) =>
    match Revision.ofString? text with
    | some r => .ok ⟨name, some r⟩
    | none => .error (.revision text)

/-- The identifier that a file name gives, without a revision if what is behind the `@` is none. -/
def ofFileNameLenient (file extension : String) : Except FileNameFault SourceId :=
  match splitFileName file extension with
  | .error e => .error e
  | .ok (name, revision) => .ok ⟨name, revision.bind Revision.ofString?⟩

end SourceId

end YangSchema
