import StatEngine.Aggregation
import StatEngine.Amount
import StatEngine.Behavior.Conversion
import StatEngine.Behavior.Damage
import StatEngine.Behavior.Effect
import StatEngine.Behavior.Modifiers
import StatEngine.Behavior.Paths
import StatEngine.Breakdown
import StatEngine.Calculator
import StatEngine.Catalog
import StatEngine.Decimal.Reading
import StatEngine.Decimal.Shortest
import StatEngine.Decimal.Text
import StatEngine.DependencyGraph
import StatEngine.Document.Breakdown
import StatEngine.Document.Identity
import StatEngine.Document.Order
import StatEngine.Entity
import StatEngine.Fault
import StatEngine.Formula.Evaluation
import StatEngine.Formula.Lookup
import StatEngine.Formula.Stages
import StatEngine.Formula.Table
import StatEngine.Inspection
import StatEngine.Json
import StatEngine.Json.Double
import StatEngine.Json.Reader
import StatEngine.Json.Record
import StatEngine.Json.Writer
import StatEngine.MetaModifier
import StatEngine.Modifier
import StatEngine.Network.Basic
import StatEngine.Network.Cascade
import StatEngine.Network.Growth
import StatEngine.Network.Layers
import StatEngine.Network.Modifiers
import StatEngine.Network.Nodes
import StatEngine.Network.Prune
import StatEngine.Network.Read
import StatEngine.Network.Sweep
import StatEngine.Network.Wiring
import StatEngine.Number
import StatEngine.Number.Double
import StatEngine.Number.Exact
import StatEngine.Path
import StatEngine.Proofs.Announcing
import StatEngine.Proofs.Aside
import StatEngine.Proofs.Asking
import StatEngine.Proofs.Attending
import StatEngine.Proofs.Attesting
import StatEngine.Proofs.Balance
import StatEngine.Proofs.Batches
import StatEngine.Proofs.Bookkeeping
import StatEngine.Proofs.Books
import StatEngine.Proofs.Bounds
import StatEngine.Proofs.Building
import StatEngine.Proofs.Cascade
import StatEngine.Proofs.Cells
import StatEngine.Proofs.Circles
import StatEngine.Proofs.Clearing
import StatEngine.Proofs.Coalescing
import StatEngine.Proofs.Collecting
import StatEngine.Proofs.Contributors
import StatEngine.Proofs.Converting
import StatEngine.Proofs.Cycles
import StatEngine.Proofs.Dependents
import StatEngine.Proofs.Depths
import StatEngine.Proofs.Directory
import StatEngine.Proofs.Disposal
import StatEngine.Proofs.Documented
import StatEngine.Proofs.Dropping
import StatEngine.Proofs.Enlisting
import StatEngine.Proofs.Evaluating
import StatEngine.Proofs.Exploring
import StatEngine.Proofs.Filing
import StatEngine.Proofs.Following
import StatEngine.Proofs.Grounded
import StatEngine.Proofs.Growth
import StatEngine.Proofs.Histories
import StatEngine.Proofs.Hosts
import StatEngine.Proofs.Identities
import StatEngine.Proofs.Incremental
import StatEngine.Proofs.Inquiry
import StatEngine.Proofs.Invalidation
import StatEngine.Proofs.Invariant
import StatEngine.Proofs.Keeping
import StatEngine.Proofs.Layering
import StatEngine.Proofs.Ledger
import StatEngine.Proofs.Logging
import StatEngine.Proofs.Meanings
import StatEngine.Proofs.Members
import StatEngine.Proofs.Naming
import StatEngine.Proofs.Nesting
import StatEngine.Proofs.Notifying
import StatEngine.Proofs.Outcome
import StatEngine.Proofs.Owning
import StatEngine.Proofs.Passes
import StatEngine.Proofs.Plain
import StatEngine.Proofs.Pruning
import StatEngine.Proofs.Reading
import StatEngine.Proofs.Recording
import StatEngine.Proofs.Records
import StatEngine.Proofs.Reference
import StatEngine.Proofs.Registrations
import StatEngine.Proofs.Removal
import StatEngine.Proofs.Requests
import StatEngine.Proofs.Roaming
import StatEngine.Proofs.Routing
import StatEngine.Proofs.Runs
import StatEngine.Proofs.Selectivity
import StatEngine.Proofs.Shares
import StatEngine.Proofs.Shedding
import StatEngine.Proofs.Sorting
import StatEngine.Proofs.Spelling
import StatEngine.Proofs.Spreading
import StatEngine.Proofs.Stacks
import StatEngine.Proofs.Stuck
import StatEngine.Proofs.Subscribers
import StatEngine.Proofs.Sweeping
import StatEngine.Proofs.Tally
import StatEngine.Proofs.Unfiling
import StatEngine.Proofs.Updates
import StatEngine.Proofs.Views
import StatEngine.Proofs.Vocabulary
import StatEngine.Session.Answer
import StatEngine.Session.Calculation
import StatEngine.Session.Events
import StatEngine.Session.Layers
import StatEngine.Session.Log
import StatEngine.Session.Nodes
import StatEngine.Session.Wiring
import StatEngine.Session.Workspace
import StatEngine.Source
import StatEngine.Stage
import StatEngine.Stat
