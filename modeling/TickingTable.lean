import TickingTable.Arrow.List
import TickingTable.Arrow.Nulls
import TickingTable.Arrow.Slice
import TickingTable.Client
import TickingTable.Config.Reader
import TickingTable.RowSet.Text
import TickingTable.Decoder.Bounded
import TickingTable.Table.Grid
import TickingTable.Proofs.Columnwise
import TickingTable.Proofs.RowSet.Algebra
import TickingTable.Proofs.RowSet.Canonical
import TickingTable.Proofs.Column
import TickingTable.Proofs.RowSet.Shift
import TickingTable.Proofs.Splice
import TickingTable.Proofs.Table
import TickingTable.Proofs.Revision
import TickingTable.Proofs.Decoder.Frame
import TickingTable.Proofs.Decoder.Pending
import TickingTable.Proofs.Decoder.Modify
import TickingTable.Proofs.Decoder.Apply
import TickingTable.Proofs.Decoder.Errors
import TickingTable.Proofs.Decoder.Run
import TickingTable.Proofs.Decoder.Atomicity
import TickingTable.Proofs.Wire.Reader
import TickingTable.Proofs.Wire.Metadata
import TickingTable.Proofs.Wire.NormalForm
import TickingTable.Proofs.Decoder.Invariant
import TickingTable.Proofs.Decoder.Delivered
import TickingTable.Proofs.Decoder.Keyed
import TickingTable.Proofs.Decoder.Framing
import TickingTable.Proofs.Decoder.Acceptance
import TickingTable.Proofs.Decoder.Positions
import TickingTable.Proofs.Joining
import TickingTable.Proofs.RowSet.Composition
import TickingTable.Proofs.RowSet.Bounded.Positions
import TickingTable.Proofs.Decoder.Bounded
import TickingTable.Proofs.Subscription.Steps
import TickingTable.Proofs.Subscription.Cancellation
import TickingTable.Proofs.Subscription.Delivery
import TickingTable.Proofs.Promise.Bridge
import TickingTable.Proofs.Promise.Once
import TickingTable.Proofs.Decoder.Chain
import TickingTable.Proofs.Executor.Steps
import TickingTable.Proofs.Executor.Queue
import TickingTable.Proofs.Executor.Shutdown
import TickingTable.Proofs.Executor.Deadlock
import TickingTable.Proofs.Subscription.Reaches
import TickingTable.Proofs.Client.Subscribers
import TickingTable.Proofs.Client.Crowd
import TickingTable.Proofs.Client.Shutdown
import TickingTable.Proofs.Announcement
import TickingTable.Proofs.Decoder.Commute
import TickingTable.Proofs.Client.Accounting
import TickingTable.Proofs.Wire.Incremental
import TickingTable.Proofs.Wire.Request
import TickingTable.Proofs.Setup.Invariant
import TickingTable.Proofs.Setup.Outcome
import TickingTable.Proofs.RowSet.Builder
import TickingTable.Proofs.RowSet.Difference
import TickingTable.Proofs.RowSet.Queries
import TickingTable.Proofs.Decoder.Completion
import TickingTable.Proofs.Decoder.Trimming
import TickingTable.Proofs.Batch
import TickingTable.Proofs.Ticket
import TickingTable.Proofs.RowSet.Text
import TickingTable.Proofs.Client.Headers
import TickingTable.Proofs.Interleave
