import BindingPlan.Binding.Analysis
import BindingPlan.Binding.Binder
import BindingPlan.Binding.Diagnostic
import BindingPlan.Class.Document
import BindingPlan.Class.Member
import BindingPlan.Class.Registry
import BindingPlan.Class.TypeName
import BindingPlan.CommandLine.Directory
import BindingPlan.CommandLine.Options
import BindingPlan.CommandLine.Run
import BindingPlan.Decimal.Binary64
import BindingPlan.Decimal.Shortest
import BindingPlan.Decimal.Written
import BindingPlan.Digest
import BindingPlan.Flag.Set
import BindingPlan.Flag.Table
import BindingPlan.Flag.Words
import BindingPlan.Graph.Basic
import BindingPlan.Graph.Edges
import BindingPlan.Graph.Flags
import BindingPlan.Graph.Kind
import BindingPlan.Graph.Resolve
import BindingPlan.Graph.Seal
import BindingPlan.Import.Table
import BindingPlan.Json.Error
import BindingPlan.Json.Reader
import BindingPlan.Json.Scalar
import BindingPlan.Json.Writer
import BindingPlan.Layout
import BindingPlan.Main
import BindingPlan.Net.Basic
import BindingPlan.Net.Flow
import BindingPlan.Net.Order
import BindingPlan.Operator
import BindingPlan.Proofs.Flag.History
import BindingPlan.Proofs.Flag.Set
import BindingPlan.Proofs.Graph.Edges
import BindingPlan.Proofs.Graph.Flags
import BindingPlan.Proofs.Graph.Plan
import BindingPlan.Proofs.Graph.Seal
import BindingPlan.Proofs.Net.Flow
import BindingPlan.Proofs.Net.Order
import BindingPlan.Proofs.Net.Sweep
import BindingPlan.Proofs.Net.WellFormed
import BindingPlan.Proofs.Plan.Convergence
import BindingPlan.Proofs.Plan.Gating
import BindingPlan.Proofs.Plan.Prerequisites
import BindingPlan.Proofs.Plan.ReadSets
import BindingPlan.Proofs.Plan.Replay
import BindingPlan.Proofs.Plan.ReplaySound
import BindingPlan.Proofs.Plan.Totality
import BindingPlan.Proofs.Schedule.Batch
import BindingPlan.Proofs.Schedule.Layers
import BindingPlan.Proofs.Schedule.Commit
import BindingPlan.Proofs.Schedule.Convergence
import BindingPlan.Proofs.Schedule.Invariant
import BindingPlan.Proofs.Schedule.Progress
import BindingPlan.Proofs.Schedule.Provided
import BindingPlan.Proofs.Schedule.Reachable
import BindingPlan.Proofs.Schedule.Run
import BindingPlan.Report
import BindingPlan.Report.Document
import BindingPlan.Report.Drawing
import BindingPlan.Report.FlagList
import BindingPlan.Report.PassList
import BindingPlan.Schedule.Batch
import BindingPlan.Schedule.Commit
import BindingPlan.Schedule.Plan
import BindingPlan.Schedule.Progress
import BindingPlan.Text.Printable
import BindingPlan.Text.Quoted
import BindingPlan.Text.Span
import BindingPlan.Text.Upper
import BindingPlan.Token
import BindingPlan.Token.Lexer
import BindingPlan.Token.Rule
import BindingPlan.Tree
import BindingPlan.Tree.Parser
import BindingPlan.Tree.Descent
import BindingPlan.Proofs.Decimal.Interval
import BindingPlan.Proofs.Decimal.Shortest
import BindingPlan.Proofs.Text.Quoted
import BindingPlan.Proofs.Decimal.Written
import BindingPlan.Proofs.Token.Name
import BindingPlan.Proofs.Tree.Names
import BindingPlan.Proofs.Key.Atom
import BindingPlan.Proofs.Key.Injective
import BindingPlan.Proofs.Graph.Found
import BindingPlan.Proofs.Binding.Lowering
import BindingPlan.Proofs.Binding.Chains
import BindingPlan.Proofs.Binding.History
import BindingPlan.Proofs.Binding.Imported
import BindingPlan.Proofs.Binding.Sharing
import BindingPlan.Proofs.Operation
import BindingPlan.Proofs.Text.Unbroken
import BindingPlan.Proofs.Text.Boundary
import BindingPlan.Proofs.Tree.Parts
import BindingPlan.Proofs.Tree.Spans
import BindingPlan.Proofs.Key.Expression
import BindingPlan.Proofs.Key.Spelled
import BindingPlan.Proofs.Graph.Run
import BindingPlan.Proofs.Graph.Node
import BindingPlan.Proofs.Graph.Step
import BindingPlan.Proofs.Graph.Effects
import BindingPlan.Proofs.Graph.Linked
import BindingPlan.Proofs.Graph.Acyclic
import BindingPlan.Proofs.Graph.Formed
import BindingPlan.Proofs.Graph.Walk
import BindingPlan.Proofs.Binding.Steps
import BindingPlan.Proofs.Binding.Acyclic
import BindingPlan.Proofs.Binding.Failures
import BindingPlan.Proofs.Binding.Rendering
import BindingPlan.Proofs.Class.Registry
import BindingPlan.Proofs.Import.History
import BindingPlan.Proofs.Import.Names
import BindingPlan.Proofs.Graph.Meaning
import BindingPlan.Proofs.Graph.Judged
import BindingPlan.Proofs.Graph.Decided
import BindingPlan.Proofs.Graph.Typed
import BindingPlan.Proofs.Binding.Reading
import BindingPlan.Proofs.Binding.Agreement
import BindingPlan.Proofs.Binding.Meaning
import BindingPlan.Proofs.Binding.Declared
import BindingPlan.Proofs.Binding.Dictionary
import BindingPlan.Proofs.Binding.Independent
import BindingPlan.Proofs.Graph.Built
import BindingPlan.Proofs.Graph.FlagTable
import BindingPlan.Proofs.Net.Renaming
import BindingPlan.Proofs.Schedule.Renaming
import BindingPlan.Proofs.Graph.Renaming
import BindingPlan.Proofs.Plan.Order
import BindingPlan.Proofs.Tree.Grammar
import BindingPlan.Proofs.Tree.Acceptance
import BindingPlan.Proofs.Tree.Choice
import BindingPlan.Proofs.Tree.Stops
import BindingPlan.Proofs.Tree.Levels
import BindingPlan.Proofs.Tree.Operands
import BindingPlan.Proofs.Tree.Descent
import BindingPlan.Proofs.Tree.Recognition
import BindingPlan.Proofs.Decimal.Reading
import BindingPlan.Proofs.Token.End
import BindingPlan.Proofs.Token.Longest
import BindingPlan.Proofs.Token.Literal
import BindingPlan.Proofs.Token.Spelling
import BindingPlan.Proofs.Tree.Printing
import BindingPlan.Proofs.Tree.Reparsing
import BindingPlan.Proofs.Graph.Kept
import BindingPlan.Proofs.Graph.Settled
import BindingPlan.Proofs.Graph.Settling
import BindingPlan.Proofs.Graph.Classified
import BindingPlan.Proofs.Graph.Grown
import BindingPlan.Proofs.Binding.Requests
import BindingPlan.Proofs.Graph.Sources
import BindingPlan.Proofs.Graph.Accesses
import BindingPlan.Proofs.Graph.Spared
import BindingPlan.Proofs.Key.Plain
import BindingPlan.Proofs.Graph.Fresh
import BindingPlan.Proofs.Graph.Retried
import BindingPlan.Proofs.Key.Kinds
import BindingPlan.Proofs.Graph.Receivers
import BindingPlan.Proofs.Graph.Anchored
import BindingPlan.Proofs.Binding.Receivers
import BindingPlan.Proofs.Graph.Frozen
import BindingPlan.Proofs.Binding.Expanded
import BindingPlan.Proofs.Binding.Relowering
import BindingPlan.Proofs.Binding.Repeated
import BindingPlan.Proofs.Json.Reading
import BindingPlan.Proofs.Class.Canonical
import BindingPlan.Proofs.Net.Needed
import BindingPlan.Proofs.Plan.Needed
import BindingPlan.Proofs.Net.Reach
import BindingPlan.Proofs.Graph.FlagSets
import BindingPlan.Proofs.Schedule.Exhaustion
import BindingPlan.Proofs.Plan.Exhaustion
import BindingPlan.Proofs.Key.Parts
import BindingPlan.Proofs.Graph.Traced
import BindingPlan.Proofs.Binding.Covered
import BindingPlan.Proofs.Graph.Filled
import BindingPlan.Proofs.Binding.Missing
import BindingPlan.Proofs.Token.Language
import BindingPlan.Proofs.Token.Cut
import BindingPlan.Proofs.Token.Munch
import BindingPlan.Proofs.Token.Coverage
import BindingPlan.Proofs.Tree.MapSpans
import BindingPlan.Proofs.Tree.Viable
import BindingPlan.Proofs.Token.Slices
import BindingPlan.Proofs.Token.Spacing
import BindingPlan.Proofs.Tree.Nodes
import BindingPlan.Proofs.Class.Ancestors
import BindingPlan.Proofs.Class.LoadOrder
import BindingPlan.Proofs.Tree.Spacing
import BindingPlan.Proofs.Net.Cycles
import BindingPlan.Proofs.Schedule.Settling
import BindingPlan.Proofs.Plan.States
import BindingPlan.Proofs.Graph.Dependants
import BindingPlan.Proofs.Text.Lines
import BindingPlan.Proofs.Report.Labels
