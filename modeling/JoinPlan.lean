import JoinPlan.Text.Blank
import JoinPlan.Text.Split
import JoinPlan.OrderedSet
import JoinPlan.Json.Printer
import JoinPlan.Json.Lookup
import JoinPlan.Filter.Criteria
import JoinPlan.Schema.Definition
import JoinPlan.Schema.Registry
import JoinPlan.Log.Scope
import JoinPlan.Plan.Planning
import JoinPlan.Plan.Explanation
import JoinPlan.Store.Basic
import JoinPlan.Search.Run
import JoinPlan.Write.Writer
import JoinPlan.Files.Tree
import JoinPlan.Config
import JoinPlan.Command.Run
import JoinPlan.Main
import JoinPlan.Proofs.Json.Record
import JoinPlan.Proofs.Json.Equality
import JoinPlan.Proofs.OrderedSet
import JoinPlan.Proofs.Pipeline.Block
import JoinPlan.Proofs.Pipeline.Walk
import JoinPlan.Proofs.Pipeline.Resolution
import JoinPlan.Proofs.Pipeline.Assembly
import JoinPlan.Proofs.Plan.Layout
import JoinPlan.Proofs.Store.Frame
import JoinPlan.Proofs.Search.Fanout
import JoinPlan.Proofs.Plan.Scoping
import JoinPlan.Proofs.Plan.Naming
import JoinPlan.Proofs.Plan.Exclusion
import JoinPlan.Proofs.Plan.Inheritance
import JoinPlan.Proofs.Plan.Readability
import JoinPlan.Proofs.Search.Pushdown
import JoinPlan.Proofs.Plan.Sharing
import JoinPlan.Proofs.Filter.Criteria
import JoinPlan.Proofs.Filter.Faults
import JoinPlan.Proofs.Plan.Rejection
import JoinPlan.Proofs.Store.Sorting
import JoinPlan.Proofs.Search.Narrowing
import JoinPlan.Proofs.Plan.Touched
import JoinPlan.Proofs.Search.Independence
import JoinPlan.Proofs.Search.Paging
import JoinPlan.Proofs.Search.Find
import JoinPlan.Proofs.Store.Changes
import JoinPlan.Proofs.Write.Runs
import JoinPlan.Proofs.Write.Protocol
import JoinPlan.Proofs.Write.ReadBack
import JoinPlan.Proofs.Write.Interleaving
import JoinPlan.Proofs.Store.Stability
import JoinPlan.Proofs.Plan.SortForm
import JoinPlan.Proofs.Pipeline.QueryForm
import JoinPlan.Proofs.Filter.Meaning
import JoinPlan.Proofs.Store.OuterJoin
import JoinPlan.Proofs.Binary64.Integers
import JoinPlan.Proofs.Filter.Predicate
import JoinPlan.Proofs.Filter.Trichotomy
import JoinPlan.Proofs.Filter.Grammar
import JoinPlan.Proofs.Search.Identifier
import JoinPlan.Proofs.Scalar.Calendar
import JoinPlan.Proofs.Scalar.Timestamp
import JoinPlan.Proofs.Text.Digits
import JoinPlan.Proofs.Text.Trimming
import JoinPlan.Proofs.Json.Nodes
import JoinPlan.Proofs.Plan.Serialization
import JoinPlan.Proofs.Search.Verdict
import JoinPlan.Proofs.Plan.DeadPaths
import JoinPlan.Proofs.Write.Numbering
import JoinPlan.Proofs.Schema.Registration
import JoinPlan.Proofs.Schema.Loading
import JoinPlan.Proofs.Json.Fields
import JoinPlan.Proofs.Config.Validation
import JoinPlan.Proofs.Store.Selection
import JoinPlan.Proofs.Json.Paths
import JoinPlan.Proofs.Plan.PathKeys
import JoinPlan.Proofs.Scalar.Uuid
import JoinPlan.Proofs.Scalar.Canonical
import JoinPlan.Proofs.Filter.Pattern
