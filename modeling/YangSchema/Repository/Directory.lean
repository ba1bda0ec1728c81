import YangSchema.FileTree
import YangSchema.Repository

/-!
# Repositories of files

The sources of a directory are its files with the extension of sources, also those in directories
below. The name of a file gives the identifier under which it is kept; of several files with one
identifier the last in the order of the walk counts.
-/

namespace YangSchema

namespace Repository

/-- The identifier that the name of a file gives. -/
def identify (settings : RepositorySettings) (name : String) : Result SourceId :=
  let id :=
    if settings.lenientRevisions then SourceId.ofFileNameLenient name settings.extension
    else SourceId.ofFileName name settings.extension
  match id with
  | .ok id => .ok id
  | .error fault => .error (.ofFileName fault)

/-- Keeps the files of a list that hold sources. -/
def insertFiles (settings : RepositorySettings) (r : Repository) :
    List (String × StoredFile) → Result Repository
  | [] => .ok r
  | (path, file) :: rest =>
    let name := file.names.getLastD ""
    if FileTree.extension? name = some settings.extension then do
      let id ← identify settings name
      insertFiles settings (r.insert id ⟨path, Text.Utf8.decode? file.bytes⟩) rest
    else insertFiles settings r rest

/-- The repository of the files at and below a path. -/
def ofFileTree (settings : RepositorySettings) (t : FileTree) (path : String) :
    Result Repository := insertFiles settings empty (t.walk path)

end Repository

end YangSchema
