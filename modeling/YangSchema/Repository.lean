import YangSchema.Session

/-!
# Repositories

A repository keeps documents under the identifiers of the sources they hold, in identifier order. It
holds one document for an identifier: a later one takes the place of an earlier one. A document is
read only when it is fetched.
-/

namespace YangSchema

/-- A kept document: the label of its text, and the text unless its bytes are not UTF-8. -/
structure Document where
  origin : String
  text : Option String
  deriving Repr, DecidableEq

/-- Documents by identifier, in identifier order. -/
structure Repository where
  documents : List (SourceId × Document)
  deriving Repr, DecidableEq

namespace Document

/-- Reads the source that a document holds. -/
def source (d : Document) : Result Source :=
  match d.text with
  | none => .error .unreadableText
  | some text =>
    match Statement.parse d.origin text with
    | .ok root => .ok ⟨d.origin, root⟩
    | .error failure => .error (.statementSyntax failure)

end Document

namespace Repository

/-- The repository without documents. -/
def empty : Repository := ⟨[]⟩

/-- Puts a document in its place in a list in identifier order. -/
def insertDocument (id : SourceId) (d : Document) :
    List (SourceId × Document) → List (SourceId × Document)
  | [] => [(id, d)]
  | e :: rest =>
    match id.compare e.1 with
    | .lt => (id, d) :: e :: rest
    | .eq => (id, d) :: rest
    | .gt => e :: insertDocument id d rest

/-- Keeps a document under an identifier. -/
def insert (r : Repository) (id : SourceId) (d : Document) : Repository :=
  ⟨insertDocument id d r.documents⟩

/-- Keeps a text under an identifier; its label is the name of the file that would keep it. -/
def insertText (r : Repository) (id : SourceId) (text : String) : Repository :=
  r.insert id ⟨id.fileName, some text⟩

/-- The identifiers of all documents, in their order. -/
def identifiers (r : Repository) : List SourceId := r.documents.map (·.1)

/-- The number of documents. -/
def count (r : Repository) : Nat := r.documents.length

/-- Whether there is no document. -/
def isEmpty (r : Repository) : Bool := r.documents.isEmpty

/-- The document of an identifier. -/
def document? (r : Repository) (id : SourceId) : Option Document := r.documents.lookup id

/-- Reads the source of an identifier, if there is one. -/
def fetch (r : Repository) (id : SourceId) : Result (Option Source) :=
  match r.document? id with
  | some d => d.source.map some
  | none => .ok none

end Repository

namespace Session

/-- Adds the sources of documents up to the first that cannot be read. -/
def addDocuments (s : Session) : List Document → Session × Option Error
  | [] => (s, none)
  | d :: ds =>
    match d.source with
    | .ok source => (s.add source).addDocuments ds
    | .error e => (s, some e)

/-- Adds the sources of a repository up to the first that cannot be read. -/
def addRepository (s : Session) (r : Repository) : Session × Option Error :=
  s.addDocuments (r.documents.map (·.2))

end Session

namespace Repository

/-- Builds the schema of all sources of a repository. -/
def build (r : Repository) (settings : BuildSettings) : Result Schema :=
  match (Session.mk settings []).addRepository r with
  | (_, some e) => .error e
  | (s, none) => s.build

end Repository

end YangSchema
