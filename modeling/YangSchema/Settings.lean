import YangSchema.SourceId

/-!
# Settings

What can be set: how sets of sources are built, and where and how sources are kept.
-/

namespace YangSchema

/-- How a set of sources is built. -/
structure BuildSettings where
  /-- Whether independent parts may be worked on side by side; this never changes a result. -/
  parallel : Bool := true
  /-- Whether the sections of a module must come in their order. -/
  enforceOrder : Bool := true
  deriving Repr, DecidableEq

/-- Where and how sources are kept. -/
structure RepositorySettings where
  /-- The directory that holds the files. -/
  path : String := "."
  /-- The extension of files that hold a source. -/
  extension : String := SourceId.defaultExtension
  /-- Whether a malformed revision in a file name counts as none. -/
  lenientRevisions : Bool := false
  deriving Repr, DecidableEq

/-- All settings. -/
structure Settings where
  build : BuildSettings := {}
  repository : RepositorySettings := {}
  deriving Repr, DecidableEq

end YangSchema
