import MessageTemplate.Analysis.Analyzer
import MessageTemplate.Analysis.KeyPath
import MessageTemplate.Analysis.Occurrence
import MessageTemplate.Analysis.Piece
import MessageTemplate.Analysis.Report
import MessageTemplate.Analysis.Scope
import MessageTemplate.Analysis.Verdict
import MessageTemplate.Decimal.Layout
import MessageTemplate.Decimal.Reading
import MessageTemplate.Decimal.Shortest
import MessageTemplate.Document.Address
import MessageTemplate.Document.Backlog
import MessageTemplate.Document.Branchwise
import MessageTemplate.Document.Codec
import MessageTemplate.Document.Dynamic
import MessageTemplate.Document.Hints
import MessageTemplate.Document.Indexing
import MessageTemplate.Document.Nesting
import MessageTemplate.Document.Node
import MessageTemplate.Document.Outputs
import MessageTemplate.Document.Preparation
import MessageTemplate.Document.Question
import MessageTemplate.Document.Settled
import MessageTemplate.Document.Stage
import MessageTemplate.Document.Wrapping
import MessageTemplate.Engine.Compiler
import MessageTemplate.Engine.Element
import MessageTemplate.Engine.Failure
import MessageTemplate.Engine.Fault
import MessageTemplate.Engine.Filter
import MessageTemplate.Engine.Instruction
import MessageTemplate.Engine.Language
import MessageTemplate.Engine.Markup
import MessageTemplate.Engine.Reader
import MessageTemplate.Engine.Rendering
import MessageTemplate.Engine.Sentence
import MessageTemplate.Engine.Value
import MessageTemplate.Evaluator.Basic
import MessageTemplate.Evaluator.Cache
import MessageTemplate.Example.Builder
import MessageTemplate.Example.Layout
import MessageTemplate.Example.Place
import MessageTemplate.Filter.Registry
import MessageTemplate.Filter.Rules
import MessageTemplate.Json.Access
import MessageTemplate.Json.Basic
import MessageTemplate.Json.Lexeme
import MessageTemplate.Json.Number
import MessageTemplate.Json.Reader
import MessageTemplate.Json.Shape
import MessageTemplate.Json.Writer
import MessageTemplate.Keyed
import MessageTemplate.Log.Error
import MessageTemplate.Log.Filter
import MessageTemplate.Metrics.Counters
import MessageTemplate.Metrics.Exposition
import MessageTemplate.Path
import MessageTemplate.Preview.Error
import MessageTemplate.Preview.Pipeline
import MessageTemplate.Proofs.Analysis.Binding
import MessageTemplate.Proofs.Analysis.Everywhere
import MessageTemplate.Proofs.Analysis.Hiding
import MessageTemplate.Proofs.Analysis.KeyPath
import MessageTemplate.Proofs.Analysis.Occurrence
import MessageTemplate.Proofs.Analysis.Piece
import MessageTemplate.Proofs.Analysis.Place
import MessageTemplate.Proofs.Analysis.Reference
import MessageTemplate.Proofs.Analysis.Spans
import MessageTemplate.Proofs.Analysis.Untagged
import MessageTemplate.Proofs.Decimal.Layout
import MessageTemplate.Proofs.Document.Address
import MessageTemplate.Proofs.Document.Codec
import MessageTemplate.Proofs.Document.Ending
import MessageTemplate.Proofs.Document.Failing
import MessageTemplate.Proofs.Document.Fallback
import MessageTemplate.Proofs.Document.Hints
import MessageTemplate.Proofs.Document.Indexing
import MessageTemplate.Proofs.Document.Insertion
import MessageTemplate.Proofs.Document.Nesting
import MessageTemplate.Proofs.Document.Outcome
import MessageTemplate.Proofs.Document.Outputs
import MessageTemplate.Proofs.Document.Places
import MessageTemplate.Proofs.Document.Recording
import MessageTemplate.Proofs.Document.Settled
import MessageTemplate.Proofs.Document.Unrolling
import MessageTemplate.Proofs.Document.Walk
import MessageTemplate.Proofs.Document.Wrapped
import MessageTemplate.Proofs.Document.Wrapping
import MessageTemplate.Proofs.Engine.Sentence
import MessageTemplate.Proofs.Evaluator.Cache
import MessageTemplate.Proofs.Evaluator.Calls
import MessageTemplate.Proofs.Example.Arrays
import MessageTemplate.Proofs.Example.Collections
import MessageTemplate.Proofs.Example.Commuting
import MessageTemplate.Proofs.Example.Coverage
import MessageTemplate.Proofs.Example.Digest
import MessageTemplate.Proofs.Example.Ends
import MessageTemplate.Proofs.Example.Exact
import MessageTemplate.Proofs.Example.Extension
import MessageTemplate.Proofs.Example.Filling
import MessageTemplate.Proofs.Example.Place
import MessageTemplate.Proofs.Example.Positions
import MessageTemplate.Proofs.Example.Reordering
import MessageTemplate.Proofs.Example.Sizes
import MessageTemplate.Proofs.Example.Uniform
import MessageTemplate.Proofs.Example.Values
import MessageTemplate.Proofs.Example.Writes
import MessageTemplate.Proofs.Json.Access
import MessageTemplate.Proofs.Json.Branches
import MessageTemplate.Proofs.Json.Lexemes
import MessageTemplate.Proofs.Json.Outputs
import MessageTemplate.Proofs.Json.Reading
import MessageTemplate.Proofs.Json.Shape
import MessageTemplate.Proofs.Path.KeyPath
import MessageTemplate.Proofs.Path.Keys
import MessageTemplate.Proofs.Path.Legible
import MessageTemplate.Proofs.Path.Plain
import MessageTemplate.Proofs.Path.Prefix
import MessageTemplate.Proofs.Path.Read
import MessageTemplate.Proofs.Path.Solid
import MessageTemplate.Proofs.Path.Steps
import MessageTemplate.Proofs.Path.Written
import MessageTemplate.Proofs.Preview.Dynamic
import MessageTemplate.Proofs.Preview.Elements
import MessageTemplate.Proofs.Preview.Failing
import MessageTemplate.Proofs.Preview.Readable
import MessageTemplate.Proofs.Schema.Conforming
import MessageTemplate.Proofs.Schema.Positions
import MessageTemplate.Proofs.Schema.Steps
import MessageTemplate.Proofs.Schema.Union
import MessageTemplate.Proofs.Template.Base
import MessageTemplate.Proofs.Template.Concatenation
import MessageTemplate.Proofs.Template.Escaped
import MessageTemplate.Proofs.Template.Filters
import MessageTemplate.Proofs.Template.Layout
import MessageTemplate.Proofs.Template.Machine
import MessageTemplate.Proofs.Template.Markup
import MessageTemplate.Proofs.Template.Parsing
import MessageTemplate.Proofs.Template.Progress
import MessageTemplate.Proofs.Template.Quoted
import MessageTemplate.Proofs.Template.Reference
import MessageTemplate.Proofs.Template.Relocation
import MessageTemplate.Proofs.Template.Search
import MessageTemplate.Proofs.Template.Splitting
import MessageTemplate.Proofs.Template.Standing
import MessageTemplate.Proofs.Template.TopLevel
import MessageTemplate.Proofs.Template.Trace
import MessageTemplate.Proofs.Template.Unambiguous
import MessageTemplate.Proofs.Template.Values
import MessageTemplate.Proofs.Template.Writing
import MessageTemplate.Proofs.Template.WrittenExpression
import MessageTemplate.Proofs.Text.Occurs
import MessageTemplate.Proofs.Text.Trim
import MessageTemplate.Schema.Basic
import MessageTemplate.Schema.Conformance
import MessageTemplate.Schema.Divergence
import MessageTemplate.Schema.OfJson
import MessageTemplate.Schema.Strays
import MessageTemplate.Session
import MessageTemplate.Settings.Basic
import MessageTemplate.Settings.Decode
import MessageTemplate.Settings.EnvFile
import MessageTemplate.Settings.Error
import MessageTemplate.Settings.Layers
import MessageTemplate.StepPath
import MessageTemplate.Template.Blocks
import MessageTemplate.Template.Expression
import MessageTemplate.Template.Grammar
import MessageTemplate.Template.Layout
import MessageTemplate.Template.Markup
import MessageTemplate.Template.Node
import MessageTemplate.Template.Pieces
import MessageTemplate.Template.Place
import MessageTemplate.Template.Reference
import MessageTemplate.Template.Shift
import MessageTemplate.Template.Token
import MessageTemplate.Template.TopLevel
import MessageTemplate.Template.Trace
import MessageTemplate.Template.Writing
import MessageTemplate.Template.WrittenExpression
import MessageTemplate.Text.Alphabetic
import MessageTemplate.Text.Basic
import MessageTemplate.Text.Class
import MessageTemplate.Text.Grapheme
import MessageTemplate.Text.Mark
import MessageTemplate.Text.Numeral
import MessageTemplate.Text.Ranges
import MessageTemplate.Text.Uppercase
import MessageTemplate.Text.Whole
