import YangSchema.Text.Utf8
import YangSchema.Text.Split

/-!
# File trees

A file tree is what a program can see of the files below its working directory. Directories are
those that hold a file, directly or through others, and the working directory itself.

A path is relative to the working directory, or absolute; an absolute path outside the working
directory leads nowhere. `FileTree.walk` lists the files below a path in the order in which a
directory is gone through: by name, the content of a directory in the place of its name.
-/

namespace YangSchema

/-- A file: the names on the way to it from the working directory, and its bytes. -/
structure StoredFile where
  names : List String
  bytes : List UInt8
  deriving Repr, DecidableEq

/-- The files below a working directory, in the order of their names, no two with the same. -/
structure FileTree where
  workingDirectory : String
  files : List StoredFile
  deriving Repr, DecidableEq

namespace FileTree

/-! ## Paths -/

/-- What is left of a path behind the working directory; `none` for a path that leads elsewhere. -/
def relative? (workingDirectory path : String) : Option String :=
  if path = "" then none
  else if path = workingDirectory then some ""
  else if (workingDirectory ++ "/").toList.isPrefixOf path.toList then
    some (String.ofList (path.toList.drop (workingDirectory.length + 1)))
  else if path.toList.head? = some '/' then none
  else some path

/-- Whether names lead to a directory. -/
def isDirectory (t : FileTree) (names : List String) : Bool :=
  names.isEmpty ||
    t.files.any fun f => names.isPrefixOf f.names && names.length < f.names.length

/-- The names to which steps lead from a place. A step leads on only from a directory; an empty one
and `.` stay there and `..` goes back. -/
def follow? (t : FileTree) (here : List String) : List String → Option (List String)
  | [] => some here
  | step :: rest =>
    if !t.isDirectory here then none
    else if step = "" ∨ step = "." then t.follow? here rest
    else if step = ".." then
      if here.isEmpty then none else t.follow? here.dropLast rest
    else t.follow? (here ++ [step]) rest

/-- The names to which a path leads. -/
def names? (t : FileTree) (path : String) : Option (List String) :=
  (relative? t.workingDirectory path).bind fun rest => t.follow? [] (Text.splitAll '/' rest)

/-- A path made longer by names. -/
def join (path : String) (names : List String) : String :=
  if names.isEmpty then path
  else if path.toList.getLast? = some '/' then path ++ "/".intercalate names
  else path ++ "/" ++ "/".intercalate names

/-- The extension of a file name: what is behind its last dot, unless nothing is before it. -/
def extension? (name : String) : Option String :=
  match (Text.splitAll '.' name).reverse with
  | ext :: first :: rest => if rest.isEmpty && first == "" then none else some ext
  | _ => none

/-- The last name of a path. -/
def lastName (path : String) : String :=
  ((Text.splitAll '/' path).filter (· != "")).getLastD ""

/-- A path up to its last name, without steps behind it that stay there; `none` if it ends by going
back or has no name. -/
def uptoLastName? (path : String) : Option String :=
  let steps := (Text.splitAll '/' path).reverse.dropWhile fun s => s == "" || s == "."
  match steps with
  | [] => none
  | name :: rest => if name = ".." then none else some ("/".intercalate (name :: rest).reverse)

/-! ## Building -/

/-- Whether one list of names does not come after another. -/
def namesLe : List String → List String → Bool
  | [], _ => true
  | _ :: _, [] => false
  | a :: as, b :: bs =>
    match compare a b with
    | .lt => true
    | .eq => namesLe as bs
    | .gt => false

/-- The names of a path that is relative to the working directory, without regard to which
directories there are. -/
def plainNames (path : String) : List String :=
  (Text.splitAll '/' path).filter fun s => s != "" && s != "."

/-- The tree of files that are given by their paths; a later file takes the place of an earlier one
at the same path. Paths that lead out of the working directory do not count. -/
def ofFiles (workingDirectory : String) (files : List (String × List UInt8)) : FileTree :=
  let inside := files.filterMap fun f =>
    (relative? workingDirectory f.1).map fun path => StoredFile.mk (plainNames path) f.2
  let stored := inside.foldl (fun fs f => fs.filter (·.names != f.names) ++ [f]) []
  ⟨workingDirectory, stored.mergeSort fun a b => namesLe a.names b.names⟩

/-! ## Reading -/

/-- The bytes of the file to which a path leads. -/
def read? (t : FileTree) (path : String) : Option (List UInt8) :=
  (t.names? path).bind fun names => (t.files.find? fun f => f.names = names).map (·.bytes)

/-- Whether a path leads to a file or a directory. -/
def contains (t : FileTree) (path : String) : Bool :=
  (t.names? path).any fun names => t.isDirectory names || t.files.any fun f => f.names = names

/-- The files below a directory, seen from there. -/
def below (t : FileTree) (names : List String) : FileTree where
  workingDirectory := join t.workingDirectory names
  files := (t.files.filter fun f => names.isPrefixOf f.names && names.length < f.names.length).map
    fun f => ⟨f.names.drop names.length, f.bytes⟩

/-- The files at and below a path, each with its name and the path made longer by the names that
lead on to it. -/
def walk (t : FileTree) (path : String) : List (String × StoredFile) :=
  match t.names? path with
  | none => []
  | some names =>
    (t.files.filter fun f => names.isPrefixOf f.names).map fun f =>
      (join path (f.names.drop names.length), f)

end FileTree

end YangSchema
