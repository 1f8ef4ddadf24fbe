import Lockstep.Config
import Lockstep.Drift.Arbiter
import Lockstep.Peer.Inbox

/-! # The authority

The authority counts the ticks that peers may simulate. It stamps every captured command with a tick a
fixed delay ahead and hands it to all peers, so that all run it in the same tick, and it weighs the
peers' opinions and tells all peers when one of them has strayed. What arrives at once for several
peers is handled in the order in which it was sent.
-/

namespace Lockstep

/-- An authority. -/
structure Authority where
  /-- The last tick that peers may simulate. -/
  tick : Tick := 0
  /-- How many ticks ahead a command is stamped. -/
  delay : UInt32
  /-- The number of the next peer to connect. -/
  nextPeer : PeerId := 0
  arbiter : DriftArbiter
  divergences : List Divergence := []
  /-- What peers have sent, the latest first. -/
  waiting : List (PeerId × Outbound) := []

namespace Authority

def ofConfig (config : SyncConfig) : Authority where
  delay := config.schedulingDelay
  arbiter := .new config.driftHistory

/-- Give a number to a peer. -/
def connect (authority : Authority) : PeerId × Authority :=
  (authority.nextPeer, { authority with nextPeer := authority.nextPeer + 1 })

/-- What every peer is told about the tick. -/
def notice (authority : Authority) : Inbound := .tickLimit authority.tick

/-- Take in what a peer has sent. -/
def collect (authority : Authority) (peer : PeerId) (messages : List Outbound) : Authority :=
  { authority with waiting := messages.reverse.map (peer, ·) ++ authority.waiting }

/-- Handle a message; the answer is what all peers are told. A command that cannot be read and an opinion
that cannot are dropped. -/
def handle (authority : Authority) (peer : PeerId) : Outbound → Option Inbound × Authority
  | .command scope bytes =>
    ((Inbound.ofDelivery scope (authority.tick.offset authority.delay) bytes).toOption, authority)
  | .opinion bytes =>
    match DriftOpinion.decode bytes with
    | .error _ => (none, authority)
    | .ok opinion =>
      let (divergence?, arbiter) := authority.arbiter.submit peer opinion
      (divergence?.map .diverged,
        { authority with arbiter, divergences := authority.divergences ++ divergence?.toList })

/-- Handle messages one after another. -/
def handleAll : List (PeerId × Outbound) → Authority → List Inbound × Authority
  | [], authority => ([], authority)
  | (peer, message) :: messages, authority =>
    let (told?, authority) := authority.handle peer message
    let (told, authority) := handleAll messages authority
    (told?.toList ++ told, authority)

/-- Handle all that has arrived. -/
def pump (authority : Authority) : List Inbound × Authority :=
  handleAll authority.waiting.reverse { authority with waiting := [] }

/-- Handle all that has arrived, and let the peers simulate one tick more. -/
def step (authority : Authority) : List Inbound × Authority :=
  let (told, authority) := authority.pump
  let authority := { authority with tick := authority.tick.next }
  (told ++ [authority.notice], authority)

/-- Forget all divergences of a scope. -/
def clearDrift (authority : Authority) (scope : ScopeId) : Authority :=
  { authority with
    arbiter := authority.arbiter.clear scope
    divergences := authority.divergences.filter (·.scope != scope) }

end Authority

end Lockstep
