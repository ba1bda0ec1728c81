import YangSchema.Binary64
import YangSchema.CommandLine
import YangSchema.CommandLine.Report
import YangSchema.CommandLine.Run
import YangSchema.CommandLine.Usage
import YangSchema.Declaration
import YangSchema.Declaration.Binder
import YangSchema.Declaration.Check
import YangSchema.Declaration.Model
import YangSchema.Digraph
import YangSchema.Error
import YangSchema.FileTree
import YangSchema.Grammar.Cardinality
import YangSchema.Grammar.Kind
import YangSchema.Grammar.Substatement
import YangSchema.Header
import YangSchema.Ini.Reader
import YangSchema.Json.Basic
import YangSchema.Json.Escape
import YangSchema.Json.Number
import YangSchema.Json.Reader
import YangSchema.Json5.Name
import YangSchema.Json5.Reader
import YangSchema.Keyword
import YangSchema.Linkage
import YangSchema.Linkage.Graph
import YangSchema.Location
import YangSchema.Main
import YangSchema.Pattern
import YangSchema.Pattern.Class
import YangSchema.Pattern.Escape
import YangSchema.Pattern.Property
import YangSchema.Proofs.Addresses
import YangSchema.Proofs.Adjusting
import YangSchema.Proofs.Arena
import YangSchema.Proofs.ArenaEdits
import YangSchema.Proofs.AugmentConfluence
import YangSchema.Proofs.AugmentFrame
import YangSchema.Proofs.AugmentGrammar
import YangSchema.Proofs.AugmentIndependence
import YangSchema.Proofs.AugmentOrder
import YangSchema.Proofs.Augmenting
import YangSchema.Proofs.Binding
import YangSchema.Proofs.CanonicalText
import YangSchema.Proofs.Checking
import YangSchema.Proofs.Collisions
import YangSchema.Proofs.Comments
import YangSchema.Proofs.Conditions
import YangSchema.Proofs.Congruence
import YangSchema.Proofs.CopiedLabels
import YangSchema.Proofs.CopiedOrigins
import YangSchema.Proofs.CopiedTypes
import YangSchema.Proofs.Copying
import YangSchema.Proofs.DataTree
import YangSchema.Proofs.Dates
import YangSchema.Proofs.Declared
import YangSchema.Proofs.Detached
import YangSchema.Proofs.DeviatedProperties
import YangSchema.Proofs.Deviating
import YangSchema.Proofs.Digits
import YangSchema.Proofs.Enclosing
import YangSchema.Proofs.Everywhere
import YangSchema.Proofs.ExtensionVisibility
import YangSchema.Proofs.Families
import YangSchema.Proofs.FileNames
import YangSchema.Proofs.Following
import YangSchema.Proofs.ForeignNodes
import YangSchema.Proofs.Freezing
import YangSchema.Proofs.Grammatical
import YangSchema.Proofs.GroundedTypes
import YangSchema.Proofs.GroupingCycle
import YangSchema.Proofs.HeaderAgreement
import YangSchema.Proofs.Hygiene
import YangSchema.Proofs.ImportLookup
import YangSchema.Proofs.InPlace
import YangSchema.Proofs.Instantiated
import YangSchema.Proofs.Instantiator
import YangSchema.Proofs.IntervalInclusion
import YangSchema.Proofs.IntervalText
import YangSchema.Proofs.JsonText
import YangSchema.Proofs.Kinship
import YangSchema.Proofs.KnownPaths
import YangSchema.Proofs.LateErrors
import YangSchema.Proofs.Lexical
import YangSchema.Proofs.Lexing
import YangSchema.Proofs.LinkRelations
import YangSchema.Proofs.ModuleArena
import YangSchema.Proofs.Names
import YangSchema.Proofs.Namespaces
import YangSchema.Proofs.Newcomer
import YangSchema.Proofs.NewcomerDeclarations
import YangSchema.Proofs.NewcomerForests
import YangSchema.Proofs.NewcomerLinkage
import YangSchema.Proofs.Occurrences
import YangSchema.Proofs.Offsets
import YangSchema.Proofs.Outcome
import YangSchema.Proofs.OwnAugments
import YangSchema.Proofs.Ownership
import YangSchema.Proofs.PathInversion
import YangSchema.Proofs.Pending
import YangSchema.Proofs.Plain
import YangSchema.Proofs.PlainDeclarations
import YangSchema.Proofs.PlainForests
import YangSchema.Proofs.PlainLinkage
import YangSchema.Proofs.PlainNodes
import YangSchema.Proofs.PlainTypes
import YangSchema.Proofs.Positions
import YangSchema.Proofs.Prefixes
import YangSchema.Proofs.Provenance
import YangSchema.Proofs.Reachability
import YangSchema.Proofs.RefinedDefaults
import YangSchema.Proofs.Refining
import YangSchema.Proofs.Registration
import YangSchema.Proofs.Relatives
import YangSchema.Proofs.Rendering
import YangSchema.Proofs.Replay
import YangSchema.Proofs.ResolvedTypes
import YangSchema.Proofs.Restrictions
import YangSchema.Proofs.Rewriting
import YangSchema.Proofs.Rows
import YangSchema.Proofs.ScaledNumbers
import YangSchema.Proofs.Scopes
import YangSchema.Proofs.Serialization
import YangSchema.Proofs.SharedSources
import YangSchema.Proofs.SiblingNames
import YangSchema.Proofs.Siblings
import YangSchema.Proofs.Sites
import YangSchema.Proofs.SourceOrder
import YangSchema.Proofs.Splitting
import YangSchema.Proofs.TokenGrammar
import YangSchema.Proofs.Trees
import YangSchema.Proofs.TypeCalls
import YangSchema.Proofs.TypeCycle
import YangSchema.Proofs.TypeMemo
import YangSchema.Proofs.TypeNarrowing
import YangSchema.Proofs.TypeResolution
import YangSchema.Proofs.TypeResolver
import YangSchema.Proofs.TypeSteps
import YangSchema.Proofs.UsesFrame
import YangSchema.Proofs.WellLinked
import YangSchema.Proofs.Written
import YangSchema.Repository
import YangSchema.Repository.Directory
import YangSchema.Revision
import YangSchema.Ron.Reader
import YangSchema.Schema
import YangSchema.Schema.Augmentation
import YangSchema.Schema.Deviation
import YangSchema.Schema.Expansion
import YangSchema.Schema.Forest
import YangSchema.Schema.Json
import YangSchema.Schema.Node
import YangSchema.Schema.QName
import YangSchema.Schema.Query
import YangSchema.SchemaPath
import YangSchema.Scope
import YangSchema.Session
import YangSchema.Settings
import YangSchema.Settings.File
import YangSchema.Settings.Ini
import YangSchema.Settings.Json
import YangSchema.Settings.Layer
import YangSchema.Settings.Load
import YangSchema.Settings.Value
import YangSchema.Settings.Written
import YangSchema.Settings.Yaml
import YangSchema.Sha256
import YangSchema.Source
import YangSchema.SourceId
import YangSchema.Statement
import YangSchema.Statement.Json
import YangSchema.Statement.Parser
import YangSchema.Statement.Token
import YangSchema.Text.Blank
import YangSchema.Text.Digits
import YangSchema.Text.Letters
import YangSchema.Text.Quoted
import YangSchema.Text.Ranges
import YangSchema.Text.Split
import YangSchema.Text.Utf8
import YangSchema.Text.Visible
import YangSchema.Toml.Moment
import YangSchema.Toml.Number
import YangSchema.Toml.Reader
import YangSchema.Toml.Table
import YangSchema.Toml.Text
import YangSchema.Toml.Writer
import YangSchema.Tree
import YangSchema.Types.Builtin
import YangSchema.Types.Effective
import YangSchema.Types.Interval
import YangSchema.Types.Resolution
import YangSchema.Types.Restriction
import YangSchema.Version
import YangSchema.Yaml.Cursor
import YangSchema.Yaml.Node
import YangSchema.Yaml.Scalar
import YangSchema.Yaml.Token
