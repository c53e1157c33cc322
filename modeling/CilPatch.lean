import CilPatch.Code.Body
import CilPatch.Code.Instruction
import CilPatch.Code.Label
import CilPatch.Code.Opcode
import CilPatch.Code.Operand
import CilPatch.Code.Region
import CilPatch.Code.Splice
import CilPatch.Cursor.Basic
import CilPatch.Cursor.Build
import CilPatch.Cursor.Command
import CilPatch.Cursor.Edit
import CilPatch.Cursor.Pattern
import CilPatch.Cursor.ReplaceAll
import CilPatch.Cursor.Warning
import CilPatch.Decimal.Binary
import CilPatch.Decimal.Numeral
import CilPatch.Decimal.Shortest
import CilPatch.Fault
import CilPatch.Flow.Block
import CilPatch.Flow.FlowGraph
import CilPatch.Flow.Targets
import CilPatch.Graph.DepthFirst
import CilPatch.Graph.Digraph
import CilPatch.Listing.Changes
import CilPatch.Listing.Drawing
import CilPatch.Listing.Lines
import CilPatch.Patching.Patch
import CilPatch.Patching.Registry
import CilPatch.Patching.Report
import CilPatch.Patching.Roster
import CilPatch.Patching.Run
import CilPatch.Patching.Settings
import CilPatch.Proofs.Code.Padding
import CilPatch.Proofs.Code.Splice
import CilPatch.Proofs.Cursor.Builds
import CilPatch.Proofs.Cursor.LabelSurvival
import CilPatch.Proofs.Cursor.Padding
import CilPatch.Proofs.Flow.BlockControl
import CilPatch.Proofs.Flow.Blocks
import CilPatch.Proofs.Flow.Construction
import CilPatch.Proofs.Flow.Control
import CilPatch.Proofs.Flow.Labels
import CilPatch.Proofs.Flow.Partition
import CilPatch.Proofs.Graph.Adjacency
import CilPatch.Proofs.Graph.Reachability
import CilPatch.Proofs.Patching.Isolation
import CilPatch.Proofs.Patching.Ledger
import CilPatch.Proofs.Patching.Offers
import CilPatch.Proofs.Patching.Quarantine
import CilPatch.Proofs.Patching.Rosters
import CilPatch.Proofs.Patching.Registrations
import CilPatch.Proofs.Patching.Sessions
import CilPatch.Proofs.Patching.Validation
import CilPatch.Proofs.Stack.Acceptance
import CilPatch.Proofs.Stack.Arrival
import CilPatch.Proofs.Stack.Budget
import CilPatch.Proofs.Stack.Faults
import CilPatch.Proofs.Stack.Heights
import CilPatch.Proofs.Stack.Hierarchies
import CilPatch.Proofs.Stack.Iteration
import CilPatch.Proofs.Stack.Order
import CilPatch.Proofs.Stack.Padding
import CilPatch.Proofs.Stack.Paths
import CilPatch.Proofs.Stack.Progress
import CilPatch.Proofs.Stack.Soundness
import CilPatch.Proofs.Stack.Straight
import CilPatch.Proofs.Stack.Termination
import CilPatch.Proofs.Stack.Transfer
import CilPatch.Proofs.Types.Assignability
import CilPatch.Stack.Basic
import CilPatch.Stack.Profile
import CilPatch.Stack.Solver
import CilPatch.Stack.Transfer
import CilPatch.Stack.Verify
import CilPatch.Text.Digits
import CilPatch.Text.Plain
import CilPatch.Text.Quoted
import CilPatch.Text.Term
import CilPatch.Types.CilType
import CilPatch.Types.Reference
import CilPatch.Types.Signature
import CilPatch.Types.Subtyping
import CilPatch.Proofs.Code.FreshLabels
import CilPatch.Proofs.Cursor.FreshLabels
import CilPatch.Proofs.Cursor.RegionLabels
import CilPatch.Proofs.Code.Bounds
import CilPatch.Proofs.Cursor.Bounds
import CilPatch.Proofs.Patching.Gating
import CilPatch.Proofs.Patching.Jobs
import CilPatch.Proofs.Patching.History
import CilPatch.Proofs.Flow.Matching
import CilPatch.Proofs.Stack.Masking
import CilPatch.Proofs.Cursor.Windows
import CilPatch.Proofs.Cursor.SinglePass
import CilPatch.Proofs.Code.Removal
import CilPatch.Proofs.Cursor.Removal
import CilPatch.Proofs.Cursor.Slots
import CilPatch.Proofs.Cursor.Rearranging
import CilPatch.Proofs.Cursor.Sweeps
import CilPatch.Proofs.Cursor.Tasks
import CilPatch.Proofs.Cursor.Strictness
import CilPatch.Proofs.Cursor.Passes
import CilPatch.Proofs.Types.Bases
import CilPatch.Proofs.Types.Circles
import CilPatch.Proofs.Types.Joins
import CilPatch.Proofs.Stack.Folds
import CilPatch.Proofs.Stack.Deliveries
import CilPatch.Proofs.Stack.Merging
import CilPatch.Proofs.Graph.Insertion
import CilPatch.Proofs.Graph.Search
import CilPatch.Proofs.Graph.Tables
import CilPatch.Proofs.Stack.Turns
import CilPatch.Proofs.Stack.Scheduling
import CilPatch.Proofs.Flow.Tables
import CilPatch.Proofs.Stack.Tables
import CilPatch.Proofs.Listing.Changes
import CilPatch.Proofs.Code.Insertion
import CilPatch.Proofs.Cursor.Insertions
import CilPatch.Proofs.Cursor.Searches
import CilPatch.Proofs.Graph.Incidence
import CilPatch.Proofs.Listing.Drawing
import CilPatch.Proofs.Cursor.Literals
import CilPatch.Proofs.Stack.Effects
import CilPatch.Proofs.Flow.Lookups
