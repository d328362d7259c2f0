import AuditTrail.Config.Load
import AuditTrail.Filter.Counted
import AuditTrail.Resource.Lineage
import AuditTrail.Session.Command
import AuditTrail.Sink
import AuditTrail.Store.Shared
import AuditTrail.Template.Diagnostic
import AuditTrail.Whitelist.Document
import AuditTrail.Proofs.Role.Reachability
import AuditTrail.Proofs.Role.History
import AuditTrail.Proofs.Role.Sample
import AuditTrail.Proofs.Resource.Containment
import AuditTrail.Proofs.Resource.Ancestry
import AuditTrail.Proofs.Cache.Lookup
import AuditTrail.Proofs.World.Freshness
import AuditTrail.Proofs.World.Request
import AuditTrail.Proofs.World.Loading
import AuditTrail.Proofs.World.Denial
import AuditTrail.Proofs.Decision.Exactness
import AuditTrail.Proofs.Decision.Revocation
import AuditTrail.Proofs.Template.Meaning
import AuditTrail.Proofs.Template.Lexing
import AuditTrail.Proofs.Template.RoundTrip
import AuditTrail.Proofs.Template.Block
import AuditTrail.Proofs.Template.Placeholder
import AuditTrail.Proofs.Pipeline.Trail
import AuditTrail.Proofs.Json.RoundTrip
import AuditTrail.Proofs.Resource.Normal
import AuditTrail.Proofs.Resource.Segments
import AuditTrail.Proofs.Whitelist.RoundTrip
import AuditTrail.Proofs.Whitelist.Rereading
import AuditTrail.Proofs.Files.Writing
import AuditTrail.Proofs.Store.Document
import AuditTrail.Proofs.Store.Settled
import AuditTrail.Proofs.Store.Turns
import AuditTrail.Proofs.Store.Serial
import AuditTrail.Proofs.Store.Refinement
import AuditTrail.Proofs.Store.Granting
import AuditTrail.Proofs.Store.Atomicity
import AuditTrail.Proofs.Store.Setup
import AuditTrail.Proofs.Store.Diagnosis
import AuditTrail.Proofs.Store.Lockout
import AuditTrail.Proofs.Store.Saving
import AuditTrail.Proofs.World.Discarding
import AuditTrail.Proofs.World.Calm
import AuditTrail.Proofs.World.Progress
import AuditTrail.Proofs.World.Retrying
import AuditTrail.Proofs.World.Phase
import AuditTrail.Proofs.World.Memo
import AuditTrail.Proofs.World.Asking
import AuditTrail.Proofs.Decision.Sharing
import AuditTrail.Proofs.Decision.Monotonicity
import AuditTrail.Proofs.Decision.Snapshot
import AuditTrail.Proofs.Config.Accepted
import AuditTrail.Proofs.Text.Numeral
import AuditTrail.Proofs.Text.Trim
import AuditTrail.Proofs.Time.Zone
import AuditTrail.Proofs.Pipeline.Startup
import AuditTrail.Proofs.Filter.Chain
import AuditTrail.Proofs.Filter.Kinds
import AuditTrail.Proofs.Whitelist.History
import AuditTrail.Proofs.Whitelist.Reading
import AuditTrail.Proofs.Whitelist.Entries
