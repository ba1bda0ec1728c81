import YangSchema.Schema
import YangSchema.Settings

/-!
# Build sessions

A session collects sources and builds them in phases. Each phase is done for all sources before the
next begins.
-/

namespace YangSchema

/-- A step of a build. -/
inductive Phase where
  | preLinkage
  | linkage
  | statementDefinition
  | fullDeclaration
  | effectiveModel
  deriving Repr, DecidableEq

namespace Phase

/-- The phases in their order. -/
def all : List Phase := [preLinkage, linkage, statementDefinition, fullDeclaration, effectiveModel]

/-- The name of a phase. -/
def text : Phase → String
  | .preLinkage => "PRE_LINKAGE"
  | .linkage => "LINKAGE"
  | .statementDefinition => "STATEMENT_DEFINITION"
  | .fullDeclaration => "FULL_DECLARATION"
  | .effectiveModel => "EFFECTIVE_MODEL"

instance : ToString Phase := ⟨text⟩

/-- The place of a phase among the phases. -/
def rank (p : Phase) : Nat := all.idxOf p

/-- Whether every phase of a list comes before the next one. -/
def ordered : List Phase → Bool
  | p :: q :: rest => p.rank < q.rank && ordered (q :: rest)
  | _ => true

end Phase

/-- The sources of a build, in the order in which they were added, and its settings. -/
structure Session where
  settings : BuildSettings := {}
  sources : List Source := []

namespace Session

/-- Adds a source. -/
def add (s : Session) (source : Source) : Session := ⟨s.settings, s.sources ++ [source]⟩

/-- Adds sources. -/
def addAll (s : Session) (sources : List Source) : Session := ⟨s.settings, s.sources ++ sources⟩

/-- The number of sources. -/
def count (s : Session) : Nat := s.sources.length

/-- Builds as far as the declared model. -/
def declare (s : Session) : Result DeclaredModel :=
  DeclaredModel.ofSources s.settings.enforceOrder s.sources

/-- Builds the schema. -/
def build (s : Session) : Result Schema := do Schema.ofModel (← s.declare)

end Session

end YangSchema
