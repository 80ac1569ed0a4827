import TypedProps.Command.Arguments
import TypedProps.Command.Report
import TypedProps.Command.Run
import TypedProps.Command.Selection
import TypedProps.Component.Declaration
import TypedProps.Component.Discovery
import TypedProps.Decimal.Double
import TypedProps.Decimal.Numeral
import TypedProps.Diagnostic
import TypedProps.Doc
import TypedProps.FileTree
import TypedProps.Glob
import TypedProps.Glob.Reader
import TypedProps.Grammar.Cursor
import TypedProps.Grammar.Expressions
import TypedProps.Grammar.Modules
import TypedProps.Grammar.Statements
import TypedProps.Grammar.Types
import TypedProps.Json.Reader
import TypedProps.Keyed
import TypedProps.Main
import TypedProps.Options
import TypedProps.Options.Json
import TypedProps.Patch
import TypedProps.Path
import TypedProps.Program.Basic
import TypedProps.Program.Exports
import TypedProps.Program.Load
import TypedProps.Proofs.Command.Containment
import TypedProps.Proofs.Command.Delivery
import TypedProps.Proofs.Command.Destinations
import TypedProps.Proofs.Command.Discovery
import TypedProps.Proofs.Command.Replanning
import TypedProps.Proofs.Command.Reports
import TypedProps.Proofs.Command.Rerun
import TypedProps.Proofs.Component.Annotations
import TypedProps.Proofs.Component.Bystanders
import TypedProps.Proofs.Component.Exclusions
import TypedProps.Proofs.Component.Named
import TypedProps.Proofs.Component.Places
import TypedProps.Proofs.Component.Relocation
import TypedProps.Proofs.Component.Shapes
import TypedProps.Proofs.Exports.Aliases
import TypedProps.Proofs.Exports.Budget
import TypedProps.Proofs.Exports.Forms
import TypedProps.Proofs.Exports.Imports
import TypedProps.Proofs.Exports.Search
import TypedProps.Proofs.FileTree.Entries
import TypedProps.Proofs.FileTree.Frame
import TypedProps.Proofs.FileTree.Writes
import TypedProps.Proofs.Grammar.Keys
import TypedProps.Proofs.Grammar.LiteralText
import TypedProps.Proofs.Grammar.Reading
import TypedProps.Proofs.Grammar.TypeText
import TypedProps.Proofs.Guarded
import TypedProps.Proofs.Json.Grammar
import TypedProps.Proofs.Json.Reading
import TypedProps.Proofs.Json.Skipping
import TypedProps.Proofs.Json.Strings
import TypedProps.Proofs.Options.Document
import TypedProps.Proofs.Pass.Components
import TypedProps.Proofs.Pass.DeadEnds
import TypedProps.Proofs.Pass.Declared
import TypedProps.Proofs.Pass.Guards
import TypedProps.Proofs.Pass.Recursion
import TypedProps.Proofs.Pass.Steps
import TypedProps.Proofs.Patch.Comments
import TypedProps.Proofs.Patch.Declaration
import TypedProps.Proofs.Patch.Events
import TypedProps.Proofs.Patch.Props
import TypedProps.Proofs.Patch.Records
import TypedProps.Proofs.Patch.Statements
import TypedProps.Proofs.Paths.Anchoring
import TypedProps.Proofs.Paths.NormalForm
import TypedProps.Proofs.Paths.Order
import TypedProps.Proofs.Paths.Steps
import TypedProps.Proofs.Paths.Store
import TypedProps.Proofs.Program.BreadthFirst
import TypedProps.Proofs.Program.Discovery
import TypedProps.Proofs.Program.EntryIndependence
import TypedProps.Proofs.Program.Loading
import TypedProps.Proofs.Program.Outline
import TypedProps.Proofs.Program.Relocation
import TypedProps.Proofs.Program.Scripts
import TypedProps.Proofs.Program.SymbolTable
import TypedProps.Proofs.Property.Listing
import TypedProps.Proofs.Property.Members
import TypedProps.Proofs.Property.Places
import TypedProps.Proofs.Property.PreOrder
import TypedProps.Proofs.Property.Qualified
import TypedProps.Proofs.Property.Recursion
import TypedProps.Proofs.Property.References
import TypedProps.Proofs.Property.Relocation
import TypedProps.Proofs.Property.Transparency
import TypedProps.Proofs.Property.Traversal
import TypedProps.Proofs.Runtime.Evaluation
import TypedProps.Proofs.Runtime.Laws
import TypedProps.Proofs.Runtime.Literals
import TypedProps.Proofs.Runtime.Objects
import TypedProps.Proofs.Runtime.Syntax
import TypedProps.Proofs.Steps
import TypedProps.Proofs.Tags.Constructors
import TypedProps.Proofs.Tags.Copies
import TypedProps.Proofs.Tags.Descriptions
import TypedProps.Proofs.Tags.Followed
import TypedProps.Proofs.Tags.Leaves
import TypedProps.Proofs.Tags.Merging
import TypedProps.Proofs.Tags.Names
import TypedProps.Proofs.Tags.Reachability
import TypedProps.Proofs.Tags.Recursion
import TypedProps.Proofs.Tags.Repetition
import TypedProps.Proofs.Tags.Synthesis
import TypedProps.Proofs.Tags.Transparency
import TypedProps.Proofs.Tags.Unions
import TypedProps.Property
import TypedProps.Property.Extraction
import TypedProps.Script
import TypedProps.Sources
import TypedProps.Tag
import TypedProps.Tag.Resolution
import TypedProps.Text.Blank
import TypedProps.Text.Identifier
import TypedProps.Text.IdentifierTable
import TypedProps.Text.Position
import TypedProps.Text.Quoted
import TypedProps.Token
import TypedProps.Token.Lexer
import TypedProps.Transform
