import Lockstep.Cluster
import Lockstep.Command.Buckets
import Lockstep.Drift.Ledger
import Lockstep.Format.Notation
import Lockstep.Handler.Bench
import Lockstep.Peer.Action
import Lockstep.Peer.Replay
import Lockstep.Random.Generator
import Lockstep.Schema.Directory
import Lockstep.Schema.Stream
import Lockstep.Schema.Typed
import Lockstep.World.Colony.Template
import Lockstep.World.Lab
import Lockstep.Proofs.Peer.Core
import Lockstep.Proofs.Peer.Abreast
import Lockstep.Proofs.Peer.Follow
import Lockstep.Proofs.Peer.Capture
import Lockstep.Proofs.Authority
import Lockstep.Proofs.Cluster.History
import Lockstep.Proofs.Cluster.Following
import Lockstep.Proofs.Cluster.Agreement
import Lockstep.Proofs.Format.Bytes
import Lockstep.Proofs.Format.Scalar
import Lockstep.Proofs.Schema.Reference
import Lockstep.Proofs.Schema.Registry
import Lockstep.Proofs.Schema.RoundTrip
import Lockstep.Proofs.Schema.Injective
import Lockstep.Proofs.Schema.Equality
import Lockstep.Proofs.Watch.Cells
import Lockstep.Proofs.Watch.Buffer
import Lockstep.Proofs.Watch.Held
import Lockstep.Proofs.Peer.Stage
import Lockstep.Proofs.Watch.Vigil
import Lockstep.Proofs.World.Lab
import Lockstep.Proofs.Drift
import Lockstep.Proofs.Peer.Alike
import Lockstep.Proofs.Peer.CatchUp
import Lockstep.Proofs.Cluster.Unison
import Lockstep.Proofs.Cluster.Lockstep
import Lockstep.Proofs.Peer.Timing
import Lockstep.Proofs.Journal
import Lockstep.Proofs.Peer.Replay
import Lockstep.Proofs.Peer.Recording
import Lockstep.Proofs.Handler.Ambient
import Lockstep.Proofs.Handler.Request
import Lockstep.Proofs.Handler.Delivery
import Lockstep.Proofs.Handler.Fidelity
import Lockstep.Proofs.Handler.Limits
import Lockstep.Proofs.Session
import Lockstep.Proofs.Peer.Accounts
import Lockstep.Proofs.Peer.Parting
import Lockstep.Proofs.Peer.Separation
import Lockstep.Proofs.Peer.Isolation
import Lockstep.Proofs.Drift.Voice
import Lockstep.Proofs.Schema.Fingerprint
import Lockstep.Proofs.Watch.Setting
import Lockstep.Proofs.Watch.Awaiting
import Lockstep.Proofs.Watch.Return
import Lockstep.Proofs.NameOrder
import Lockstep.Proofs.Format.Failure
import Lockstep.Proofs.Schema.Declarations
import Lockstep.Proofs.Handler.Numbers
import Lockstep.Proofs.Schema.Closed
import Lockstep.Proofs.Handler.Closed
import Lockstep.Proofs.Schema.Static
import Lockstep.Proofs.Drift.Archive
import Lockstep.Proofs.Format.Truncation
import Lockstep.Proofs.Journal.Cuts
import Lockstep.Proofs.Format.Yields
import Lockstep.Proofs.Schema.Canonical
import Lockstep.Proofs.Watch.Coalescing
import Lockstep.Proofs.Format.Strictness
import Lockstep.Proofs.Watch.Stack
import Lockstep.Proofs.Watch.Pacing
import Lockstep.Proofs.Peer.Progress
import Lockstep.Proofs.Peer.Atomic
import Lockstep.Proofs.Random
import Lockstep.Proofs.Drift.Ledger
import Lockstep.Proofs.Peer.Moves
import Lockstep.Proofs.Peer.News
import Lockstep.Proofs.Peer.Removal
import Lockstep.Proofs.Random.Seeds
import Lockstep.Proofs.Random.Range
import Lockstep.Proofs.Session.Lifetime
import Lockstep.Proofs.Handler.Fingerprint
import Lockstep.Proofs.Format.Script
import Lockstep.Proofs.Command.Buckets
import Lockstep.Proofs.World.Colony
