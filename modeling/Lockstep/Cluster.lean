import Lockstep.Authority
import Lockstep.Peer.Tick
import Lockstep.Peer.Watch

/-! # Clusters

An authority and peers that start from equal worlds. A peer of the cluster is connected as long as the
authority that it joined exists; what others send is lost, and they are told nothing.
-/

namespace Lockstep

/-- A peer's place in a cluster. -/
structure Member (W : Type) where
  peer : Peer W
  /-- The number under which the authority knows the peer, as long as they are connected. -/
  number : Option PeerId

/-- What the peers of a cluster have in common. -/
structure Template (W : Type) where
  config : SyncConfig
  table : HandlerTable W
  world : W
  scopes : List ScopeId

/-- A cluster. -/
structure Cluster (W : Type) where
  template : Template W
  authority : Authority
  members : List (Member W) := []

namespace Member

variable {W : Type}

/-- Hand messages to a connected peer. -/
def tell (messages : List Inbound) (member : Member W) : Member W :=
  match member.number with
  | none => member
  | some _ => { member with peer := { member.peer with
      inbox := messages.foldl (fun inbox message => inbox.post (.ok message)) member.peer.inbox } }

/-- Take what a peer has sent to the authority. -/
def deliver (member : Member W) (authority : Authority) : Member W × Authority :=
  let (messages, peer) := member.peer.drainOutbox
  ({ member with peer }, match member.number with
    | some number => authority.collect number messages
    | none => authority)

end Member

/-- A peer with the scopes of a template, all of which start at one tick. -/
def Template.start {W : Type} (template : Template W) (tick : Tick) : Except SetupError (Peer W) := do
  let peer ← Peer.create template.config template.table template.world
  (template.scopes.foldlM (fun (peer : Peer W) scope => peer.addScope scope tick) peer).mapError .scope

namespace Cluster

variable {W : Type}

/-- Connect one more peer. -/
def join (cluster : Cluster W) (start : Tick) : Except SetupError (PeerId × Cluster W) := do
  let peer ← cluster.template.start start
  let (id, authority) := cluster.authority.connect
  let member := Member.tell [authority.notice] { peer := { peer with id }, number := some id }
  return (id, { cluster with authority, members := cluster.members ++ [member] })

/-- Connect a number of peers. -/
def joinMany (start : Tick) : Nat → Cluster W → Except SetupError (Cluster W)
  | 0, cluster => return cluster
  | count + 1, cluster => do
    let (_, cluster) ← cluster.join start
    joinMany start count cluster

/-- A cluster of peers at their first tick. -/
def create (template : Template W) (peers : Nat) : Except SetupError (Cluster W) := do
  template.config.validate.mapError .config
  joinMany 0 peers { template, authority := .ofConfig template.config }

/-- Change every peer. -/
def mapPeers (f : Peer W → Peer W) (cluster : Cluster W) : Cluster W :=
  { cluster with members := cluster.members.map fun member => { member with peer := f member.peer } }

/-- Tell all connected peers. -/
def tellAll (messages : List Inbound) (cluster : Cluster W) : Cluster W :=
  { cluster with members := cluster.members.map (Member.tell messages) }

/-- The peer in a place. -/
def member (cluster : Cluster W) (place : Nat) : Except Breakdown (Member W) :=
  match cluster.members[place]? with
  | some member => .ok member
  | none => .error (.noPlace cluster.members.length place)

/-- Let a peer do something, and take what it sends to the authority. -/
def act {α : Type} (cluster : Cluster W) (place : Nat) (action : Peer W → α × Peer W) :
    Except Breakdown (α × Cluster W) := do
  let member ← cluster.member place
  let (answer, peer) := action member.peer
  let (member, authority) := { member with peer }.deliver cluster.authority
  return (answer, { cluster with authority, members := cluster.members.set place member })

/-- The authority handles what has arrived; the answer is the number of messages. -/
def pump (cluster : Cluster W) : Nat × Cluster W :=
  let (told, authority) := cluster.authority.pump
  (cluster.authority.waiting.length, tellAll told { cluster with authority })

/-- The authority lets the peers simulate one tick more. -/
def release (cluster : Cluster W) : Cluster W :=
  let (told, authority) := cluster.authority.step
  tellAll told { cluster with authority }

/-- The authority forgets all divergences of a scope. -/
def clearDrift (cluster : Cluster W) (scope : ScopeId) : Cluster W :=
  { cluster with authority := cluster.authority.clearDrift scope }

/-- A new authority takes over, which no peer has joined. -/
def replaceAuthority (cluster : Cluster W) : Cluster W :=
  { cluster with
    authority := .ofConfig cluster.template.config
    members := cluster.members.map ({ · with number := none }) }

variable [World W]

/-- Let peers catch up one after another, and take what they send to the authority. -/
def catchUpEach : List (Member W) → Authority → Option (List (List TickReport) × List (Member W) × Authority)
  | [], authority => some ([], [], authority)
  | member :: members, authority => do
    let (reports, peer) ← member.peer.catchUp
    let (member, authority) := { member with peer }.deliver authority
    let (others, members, authority) ← catchUpEach members authority
    return (reports :: others, member :: members, authority)

/-- The authority lets the peers simulate one tick more, and they do. -/
def step (cluster : Cluster W) : Option (List (List TickReport) × Cluster W) := do
  let released := cluster.release
  let (reports, members, authority) ← catchUpEach released.members released.authority
  return (reports, { released with authority, members })

/-- Take a number of steps. -/
def run : Nat → Cluster W → Option (Cluster W)
  | 0, cluster => some cluster
  | count + 1, cluster => do
    let (_, cluster) ← cluster.step
    run count cluster

/-- Take as many steps as it needs for what was sent to arrive and be weighed. -/
def settle (cluster : Cluster W) : Option (Cluster W) := cluster.run 2

end Cluster

end Lockstep
