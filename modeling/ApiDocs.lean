import ApiDocs.Binding.Binder
import ApiDocs.Binding.Declarations
import ApiDocs.Binding.DocComment
import ApiDocs.Binding.Draft
import ApiDocs.Binding.LineIndex
import ApiDocs.Binding.Link
import ApiDocs.Binding.Members
import ApiDocs.Binding.ModulePath
import ApiDocs.Binding.Scope
import ApiDocs.Binding.Site
import ApiDocs.Binding.TypeExpr
import ApiDocs.CommandLine.Arguments
import ApiDocs.CommandLine.Failure
import ApiDocs.CommandLine.Run
import ApiDocs.Config.Basic
import ApiDocs.Config.Discovery
import ApiDocs.Config.Environment
import ApiDocs.Config.Error
import ApiDocs.Docs.Codec
import ApiDocs.Docs.Model
import ApiDocs.Docs.TypeText
import ApiDocs.Extract.Alias
import ApiDocs.Extract.Describe
import ApiDocs.Extract.Error
import ApiDocs.Extract.RefTable
import ApiDocs.Extract.Run
import ApiDocs.Extract.SymbolView
import ApiDocs.Extract.TypeShape
import ApiDocs.Extract.Walk
import ApiDocs.Files
import ApiDocs.FlagSet
import ApiDocs.Graph.Basic
import ApiDocs.Graph.Builder
import ApiDocs.Graph.Codec
import ApiDocs.Graph.Validity
import ApiDocs.Json.Basic
import ApiDocs.Json.Overlay
import ApiDocs.Json.Reader
import ApiDocs.Json.Record
import ApiDocs.Json.Writer
import ApiDocs.Main
import ApiDocs.Number.Binary64
import ApiDocs.Number.Layout
import ApiDocs.Number.Power
import ApiDocs.Number.Shortest
import ApiDocs.PathFilter
import ApiDocs.PathPattern.Basic
import ApiDocs.PathPattern.CharSet
import ApiDocs.PathPattern.Reader
import ApiDocs.Proofs.Binding.Declarations
import ApiDocs.Proofs.Binding.Draft
import ApiDocs.Proofs.Binding.Linking
import ApiDocs.Proofs.Binding.SelfContained
import ApiDocs.Proofs.Computation
import ApiDocs.Proofs.Docs.WellFormed
import ApiDocs.Proofs.Extract.Assembly
import ApiDocs.Proofs.Extract.Builders
import ApiDocs.Proofs.Extract.Closure
import ApiDocs.Proofs.Extract.Extraction
import ApiDocs.Proofs.Extract.Identity
import ApiDocs.Proofs.Extract.Linking
import ApiDocs.Proofs.Extract.Reading
import ApiDocs.Proofs.Extract.Records
import ApiDocs.Proofs.Extract.RefTable
import ApiDocs.Proofs.Extract.Safety
import ApiDocs.Proofs.Extract.WalkState
import ApiDocs.Proofs.Graph.Builder
import ApiDocs.Proofs.Graph.Extent
import ApiDocs.SourcePath
import ApiDocs.Table
import ApiDocs.Text.Blank
import ApiDocs.Text.CaseFold
import ApiDocs.Text.Digit
import ApiDocs.Text.Lines
import ApiDocs.Text.NamePart
import ApiDocs.Text.Quoted
import ApiDocs.Text.Unprintable
import ApiDocs.Toml.Reader
import ApiDocs.Toml.Scalar
import ApiDocs.Toml.Text
import ApiDocs.Toml.Tree
import ApiDocs.TypeScript.Parser.Basic
import ApiDocs.TypeScript.Parser.Class
import ApiDocs.TypeScript.Parser.Declaration
import ApiDocs.TypeScript.Parser.Expression
import ApiDocs.TypeScript.Parser.Grammar
import ApiDocs.TypeScript.Parser.Markup
import ApiDocs.TypeScript.Parser.Parameter
import ApiDocs.TypeScript.Parser.Rule
import ApiDocs.TypeScript.Parser.Statement
import ApiDocs.TypeScript.Parser.Type
import ApiDocs.TypeScript.Scanner
import ApiDocs.TypeScript.Token
import ApiDocs.TypeScript.Tree
import ApiDocs.Proofs.Extract.Heritage
import ApiDocs.Proofs.Binding.StarExports
import ApiDocs.Proofs.Graph.Calls
import ApiDocs.Proofs.Binding.Persistence
import ApiDocs.Proofs.Binding.TypeForms
import ApiDocs.Proofs.Binding.Materialization
import ApiDocs.Proofs.Binding.TypePhase
import ApiDocs.Proofs.Binding.AliasChains
import ApiDocs.Proofs.Binding.AliasExpansion
import ApiDocs.Proofs.Graph.Renaming
import ApiDocs.Proofs.Simulation
import ApiDocs.Proofs.Extract.Numbering
import ApiDocs.Proofs.Extract.ModuleRecords
import ApiDocs.Proofs.Extract.MergedDeclarations
import ApiDocs.Proofs.TypeScript.Scanning
import ApiDocs.Proofs.TypeScript.TypeReading
import ApiDocs.Proofs.TypeScript.TypeTexts
import ApiDocs.Proofs.TypeScript.FunctionTypes
import ApiDocs.Proofs.Binding.RenderedTypes
import ApiDocs.Proofs.Extract.AliasLimit
import ApiDocs.Proofs.Json.Scalars
import ApiDocs.Proofs.Json.Texts
import ApiDocs.Proofs.Json.Records
import ApiDocs.Proofs.Graph.FlagText
import ApiDocs.Proofs.Graph.Storage
import ApiDocs.Proofs.Docs.Storage
import ApiDocs.Proofs.Docs.Nesting
import ApiDocs.Proofs.Extract.Storage
import ApiDocs.Proofs.Graph.BuilderRuns
import ApiDocs.Proofs.Extract.PathFilters
import ApiDocs.Proofs.Text.SourcePaths
import ApiDocs.Proofs.Text.EmittedPaths
import ApiDocs.Proofs.Binding.Rebasing
import ApiDocs.Proofs.Extract.Frames
import ApiDocs.Proofs.Extract.ClassRecords
import ApiDocs.Proofs.Binding.Frames
import ApiDocs.Proofs.Binding.AliasMemo
import ApiDocs.Proofs.Binding.ClassHierarchy
import ApiDocs.Proofs.Binding.DeclaredConstructors
import ApiDocs.Proofs.Binding.InheritedConstructors
import ApiDocs.Proofs.Extract.AliasOutcomes
import ApiDocs.Proofs.Extract.TypeUnfolding
import ApiDocs.Proofs.Extract.RefHistory
import ApiDocs.Proofs.Extract.Repeatability
import ApiDocs.Proofs.Docs.PlainTexts
import ApiDocs.Proofs.Docs.Readability
import ApiDocs.Proofs.Extract.TypeShapes
import ApiDocs.Proofs.Extract.Displays
import ApiDocs.Proofs.Extract.ComposedTypes
import ApiDocs.Proofs.Text.NormalForms
import ApiDocs.Proofs.Text.Lines
import ApiDocs.Proofs.Binding.SourceAttempts
import ApiDocs.Proofs.Binding.IndexModules
import ApiDocs.Proofs.Binding.DocComments
import ApiDocs.Proofs.Binding.CommentLayout
import ApiDocs.Proofs.Json.Layers
import ApiDocs.Proofs.Json.Fields
import ApiDocs.Proofs.Config.Layers
import ApiDocs.Proofs.CommandLine.Flags
import ApiDocs.Proofs.Graph.Symbols
import ApiDocs.Proofs.Binding.Annotations
import ApiDocs.Proofs.Binding.TouchedPlaces
import ApiDocs.Proofs.Binding.EnumTypes
import ApiDocs.Proofs.Binding.RecordedTypes
import ApiDocs.Proofs.Binding.DraftSteps
import ApiDocs.Proofs.Binding.DraftRules
import ApiDocs.Proofs.Binding.Notes
import ApiDocs.Proofs.Binding.DocumentedArrays
import ApiDocs.Proofs.Binding.EnumMembers
import ApiDocs.Proofs.Binding.EnumValues
import ApiDocs.Proofs.Binding.LinkedMembers
import ApiDocs.Proofs.Binding.LineNumbers
import ApiDocs.Proofs.Extract.EnumRecords
import ApiDocs.Proofs.Binding.InterfaceBodies
import ApiDocs.Proofs.Binding.InterfaceDrafts
import ApiDocs.Proofs.Extract.InterfaceRecords
