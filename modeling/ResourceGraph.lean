import ResourceGraph.Api.Compilation
import ResourceGraph.Api.Definition
import ResourceGraph.Api.MainSchema
import ResourceGraph.Api.Printer
import ResourceGraph.Api.Registry
import ResourceGraph.CommandLine.Basic
import ResourceGraph.CommandLine.Command
import ResourceGraph.CommandLine.Option
import ResourceGraph.CommandLine.Surroundings
import ResourceGraph.Config.Pagination
import ResourceGraph.Config.ResourceSpec
import ResourceGraph.Config.ServiceConfig
import ResourceGraph.Config.Validation
import ResourceGraph.Execution.Basic
import ResourceGraph.Execution.Collection
import ResourceGraph.Execution.Introspection
import ResourceGraph.Execution.Variables
import ResourceGraph.Fault
import ResourceGraph.GraphQL
import ResourceGraph.Http.Client
import ResourceGraph.Http.Status
import ResourceGraph.Iteration
import ResourceGraph.Keyed
import ResourceGraph.Log
import ResourceGraph.Main
import ResourceGraph.Measure
import ResourceGraph.Naming.Sanitize
import ResourceGraph.Naming.Singular
import ResourceGraph.Number.Double
import ResourceGraph.Number.Reading
import ResourceGraph.Number.Shortest
import ResourceGraph.Query.Document
import ResourceGraph.Query.Error
import ResourceGraph.Query.Fragments
import ResourceGraph.Query.Grammar
import ResourceGraph.Query.Lexeme
import ResourceGraph.Query.Position
import ResourceGraph.Query.Printer
import ResourceGraph.Query.Suggestion
import ResourceGraph.Query.Token
import ResourceGraph.Raw
import ResourceGraph.Raw.Link
import ResourceGraph.Resolver
import ResourceGraph.Schema.Composite
import ResourceGraph.Schema.Equality
import ResourceGraph.Schema.Layout
import ResourceGraph.Schema.Node
import ResourceGraph.Schema.Outline
import ResourceGraph.Schema.Parsing
import ResourceGraph.Schema.Paths
import ResourceGraph.Schema.Scalar
import ResourceGraph.Service
import ResourceGraph.Store.Basic
import ResourceGraph.Store.Canned
import ResourceGraph.Store.Memory
import ResourceGraph.Store.Paging
import ResourceGraph.Store.Record
import ResourceGraph.Store.Remote
import ResourceGraph.Text.Blank
import ResourceGraph.Text.Case
import ResourceGraph.Text.CaseTable
import ResourceGraph.Text.Digit
import ResourceGraph.Text.Hex
import ResourceGraph.Text.Printable
import ResourceGraph.Text.Quoted
import ResourceGraph.Text.Split
import ResourceGraph.TypeSystem.Basic
import ResourceGraph.TypeSystem.Binding
import ResourceGraph.TypeSystem.Construction
import ResourceGraph.TypeSystem.Description
import ResourceGraph.TypeSystem.Input
import ResourceGraph.TypeSystem.Scalar
import ResourceGraph.TypeSystem.Standard
import ResourceGraph.Url.Basic
import ResourceGraph.Url.Percent
import ResourceGraph.Validation.Merging
import ResourceGraph.Validation.Rules
import ResourceGraph.Validation.Visit
import ResourceGraph.Value
import ResourceGraph.Value.Display
import ResourceGraph.Value.Json
import ResourceGraph.Value.JsonReader
import ResourceGraph.Proofs.Schema.References
import ResourceGraph.Proofs.Schema.Resolution
import ResourceGraph.Proofs.Api.Assembly
import ResourceGraph.Proofs.Api.Walk
import ResourceGraph.Proofs.Api.Parts
import ResourceGraph.Proofs.Api.WellFormed
import ResourceGraph.Proofs.Api.Image
import ResourceGraph.Proofs.Naming.Names
import ResourceGraph.Proofs.Query.Lexing
import ResourceGraph.Proofs.Api.Collisions
import ResourceGraph.Proofs.Api.Names
import ResourceGraph.Proofs.Schema.StringPaths
import ResourceGraph.Proofs.Api.Resources
import ResourceGraph.Proofs.Store.Search
import ResourceGraph.Proofs.Store.Paging
import ResourceGraph.Proofs.Api.Recording
import ResourceGraph.Proofs.Api.History
import ResourceGraph.Proofs.Raw.Unfolding
import ResourceGraph.Proofs.Schema.Shape
import ResourceGraph.Proofs.Schema.Plan
import ResourceGraph.Proofs.Schema.Reading
import ResourceGraph.Proofs.Schema.Trees
import ResourceGraph.Proofs.Api.Sharing
import ResourceGraph.Proofs.Query.Spelling
import ResourceGraph.Proofs.Query.Taking
import ResourceGraph.Proofs.TypeSystem.Reading
import ResourceGraph.Proofs.Api.Making
import ResourceGraph.Proofs.TypeSystem.Declared
import ResourceGraph.Proofs.TypeSystem.Bound
import ResourceGraph.Proofs.Api.Aliases
import ResourceGraph.Proofs.Service.Resolvers
import ResourceGraph.Proofs.Number.Double
import ResourceGraph.Proofs.Value.Equality
import ResourceGraph.Proofs.Execution.Completion
import ResourceGraph.Proofs.Api.Representation
import ResourceGraph.Proofs.Service.Answers
import ResourceGraph.Proofs.Service.Enums
import ResourceGraph.Proofs.TypeSystem.Flaws
import ResourceGraph.Proofs.Schema.Sketch
import ResourceGraph.Proofs.Api.Bounded
import ResourceGraph.Proofs.Api.Skipping
import ResourceGraph.Proofs.Schema.Equivalence
import ResourceGraph.Proofs.Schema.Decision
import ResourceGraph.Proofs.Schema.Evaluation
import ResourceGraph.Proofs.Api.Demand
import ResourceGraph.Proofs.Api.Asking
import ResourceGraph.Proofs.Api.Order
import ResourceGraph.Proofs.Api.Permanence
import ResourceGraph.Proofs.Api.Evaluation
import ResourceGraph.Proofs.Api.Failures
import ResourceGraph.Proofs.Raw.Content
import ResourceGraph.Proofs.Schema.Alike
import ResourceGraph.Proofs.Schema.Standins
import ResourceGraph.Proofs.Api.Alarms
import ResourceGraph.Proofs.Schema.Looping
import ResourceGraph.Proofs.Service.CrossSearch
import ResourceGraph.Proofs.Schema.Counterparts
import ResourceGraph.Proofs.Api.SearchableMap
import ResourceGraph.Proofs.Query.Decoding
import ResourceGraph.Proofs.Execution.InStep
import ResourceGraph.Proofs.Service.Masking
import ResourceGraph.Proofs.Schema.Flattening
import ResourceGraph.Proofs.Service.Pagination
import ResourceGraph.Proofs.Schema.Required
import ResourceGraph.Proofs.Api.Nullability
import ResourceGraph.Proofs.Api.Filters
import ResourceGraph.Proofs.Text.Pieces
import ResourceGraph.Proofs.Schema.Chains
import ResourceGraph.Proofs.Text.Lowering
import ResourceGraph.Proofs.Store.Verbatim
import ResourceGraph.Proofs.Url.Percent
import ResourceGraph.Proofs.Url.Joining
import ResourceGraph.Proofs.Store.Addresses
import ResourceGraph.Proofs.Schema.Depth
import ResourceGraph.Proofs.Api.Precedence
import ResourceGraph.Proofs.Naming.Projection
import ResourceGraph.Proofs.Service.Translation
import ResourceGraph.Proofs.Number.Text
import ResourceGraph.Proofs.Store.Lookup
