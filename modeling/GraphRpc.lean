import GraphRpc.Heap.Equality
import GraphRpc.Lanes.Crew
import GraphRpc.Sample
import GraphRpc.Sample.Handlers
import GraphRpc.Session.Joined
import GraphRpc.Settings.Environment
import GraphRpc.Settings.LogFilter
import GraphRpc.Settings.Validation
import GraphRpc.Settings.Writing
import GraphRpc.Proofs.Calls.Resolution
import GraphRpc.Proofs.Calls.Whole
import GraphRpc.Proofs.Calls.Withdrawal
import GraphRpc.Proofs.Canonical
import GraphRpc.Proofs.Delivery
import GraphRpc.Proofs.Inbound.Reader
import GraphRpc.Proofs.Isomorphism
import GraphRpc.Proofs.Lanes.Shutdown
import GraphRpc.Proofs.Peers.Correlation
import GraphRpc.Proofs.RoundTrip
import GraphRpc.Proofs.Wire.Chunks
import GraphRpc.Transport.Surroundings
import GraphRpc.Proofs.Replies
import GraphRpc.Proofs.Peers.Numbering
import GraphRpc.Proofs.Peers.Serving
import GraphRpc.Proofs.Wire.Exact
import GraphRpc.Proofs.SelfDelimiting
import GraphRpc.Proofs.Interoperation
import GraphRpc.Proofs.Instances.RoundTrip
import GraphRpc.Proofs.Lanes.Desk
import GraphRpc.Proofs.Link.Station
import GraphRpc.Proofs.Link.Passage
import GraphRpc.Proofs.Link.Turns
import GraphRpc.Proofs.Link.Way
import GraphRpc.Proofs.Link.Completion
import GraphRpc.Proofs.Equality.Comparison
import GraphRpc.Proofs.Admission.Reception
import GraphRpc.Proofs.Admission.Sessions
import GraphRpc.Proofs.Admission.Limit
import GraphRpc.Proofs.Admission.Draining
import GraphRpc.Proofs.Accounts.Ledger
import GraphRpc.Proofs.Accounts.Balance
import GraphRpc.Proofs.Contents
import GraphRpc.Proofs.Equality.Copies
import GraphRpc.Proofs.Decoded.WellFormed
import GraphRpc.Proofs.Decoded.Economy
import GraphRpc.Proofs.Refusal.Reasons
import GraphRpc.Proofs.Refusal.Faults
import GraphRpc.Proofs.Checked.Safety
import GraphRpc.Proofs.Outbound.Upkeep
import GraphRpc.Proofs.Race.First
import GraphRpc.Proofs.Outbound.Wakeup
import GraphRpc.Proofs.Lifetime.Listeners
import GraphRpc.Proofs.Dispatching
import GraphRpc.Proofs.Precedence
import GraphRpc.Proofs.Capacity
import GraphRpc.Proofs.Continuation
import GraphRpc.Proofs.Toml.Quoting
import GraphRpc.Proofs.Toml.Unquoted
import GraphRpc.Proofs.Toml.Lines
import GraphRpc.Proofs.Toml.Documents
import GraphRpc.Proofs.Settings.Saving
import GraphRpc.Proofs.Settings.Bounds
import GraphRpc.Proofs.Lockstep
