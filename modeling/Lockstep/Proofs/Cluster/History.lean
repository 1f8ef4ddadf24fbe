import Lockstep.Cluster
import Lockstep.Proofs.Authority
import Lockstep.Proofs.Peer.Capture
import Lockstep.Proofs.Peer.Follow

/-! # Histories of clusters

A history is a cluster together with what happened in it: the commands that the authority stamped,
the ticks that each peer simulated, and whether all messages found room. The authority and the peers
act in any order.
-/

namespace Lockstep

/-- What a peer may be asked to do on its own. -/
inductive PeerCall where
  | capture (ambient : Ambient) (capture : Capture)
  | pump
  | advance (scope : ScopeId)
  | advanceAll
  | runUntil (scope : ScopeId) (tick : Tick)

/-- What may happen in a cluster. -/
inductive ClusterCall where
  | peer (place : Nat) (call : PeerCall)
  | pump
  | release

/-- A cluster and what happened in it. -/
structure History (W : Type) where
  cluster : Cluster W
  /-- What the authority has stamped, in the order in which it was received. -/
  stamped : List Command := []
  /-- The ticks that the peer in a place has simulated, in order. -/
  ran : Nat → List TickRecord := fun _ => []
  /-- Whether all that the peers were told found room. -/
  lossless : Bool := true

/-- Whether a peer has room for a number of messages, if it is told any. -/
def Member.hasRoom {W : Type} (count : Nat) (member : Member W) : Bool :=
  member.number.isNone || decide (member.peer.inbox.messages.length + count ≤
    member.peer.inbox.capacity)

/-- Whether there is room for a number of messages to every peer. -/
def Cluster.hasRoom {W : Type} (cluster : Cluster W) (count : Nat) : Bool :=
  cluster.members.all (Member.hasRoom count)

variable {W : Type} [World W]

namespace PeerCall

/-- Do what a peer is asked to. -/
def run (peer : Peer W) : PeerCall → Option (Peer W)
  | capture ambient request => some (peer.attempt ambient request)
  | pump => some peer.pump.2
  | advance scope => some (peer.advance scope).2
  | advanceAll => some peer.advanceAll.2
  | runUntil scope tick => (peer.runUntil scope tick).map (·.2)

/-- Do what a peer is asked to, on record. -/
def perform (peer : Peer W) : PeerCall → Option (List TickRecord × Peer W)
  | capture ambient request => some ([], peer.attempt ambient request)
  | pump => some ([], peer.pump.2)
  | advance scope => some (Peer.recordOf (peer.recordAdvance scope).1, (peer.recordAdvance scope).2)
  | advanceAll => some peer.recordAll
  | runUntil scope tick => (peer.recordUntil scope tick).map (·.2)

/-- Being on record changes nothing. -/
theorem run_eq_perform (peer : Peer W) (call : PeerCall) :
    call.run peer = (call.perform peer).map (·.2) := by
  cases call with
  | capture ambient request => rfl
  | pump => rfl
  | advance scope => rw [run, Peer.advance_eq_record, perform, Option.map_some]
  | advanceAll => rw [run, Peer.advanceAll_eq_record, perform, Option.map_some]
  | runUntil scope tick => simp [run, Peer.runUntil_eq_record, perform, Function.comp_def]

end PeerCall

namespace History

/-- Let a peer act. -/
def act (history : History W) (place : Nat) (call : PeerCall) : Option (History W) := do
  let member ← history.cluster.members[place]?
  let (records, peer) ← call.perform member.peer
  let (_, cluster) ← (history.cluster.act place fun _ => ((), peer)).toOption
  return { history with
    cluster
    ran := fun other => if other = place then history.ran place ++ records else history.ran other }

/-- The authority handles what has arrived. -/
def pump (history : History W) : History W :=
  { history with
    cluster := history.cluster.pump.2
    stamped := history.stamped ++ history.cluster.authority.stamps
    lossless :=
      history.lossless && history.cluster.hasRoom history.cluster.authority.pump.1.length }

/-- The authority lets the peers simulate one tick more. -/
def release (history : History W) : History W :=
  { history with
    cluster := history.cluster.release
    stamped := history.stamped ++ history.cluster.authority.stamps
    lossless :=
      history.lossless && history.cluster.hasRoom history.cluster.authority.step.1.length }

/-- Go on with a call. Nothing comes of a call to a place where there is no peer, or of one that
does not return. -/
def perform (history : History W) : ClusterCall → Option (History W)
  | .peer place call => history.act place call
  | .pump => some history.pump
  | .release => some history.release

/-- Go on with calls, one after another. -/
def play (history : History W) (calls : List ClusterCall) : Option (History W) :=
  calls.foldlM perform history

end History

end Lockstep
