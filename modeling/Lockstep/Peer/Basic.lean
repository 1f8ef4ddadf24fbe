import Lockstep.Command.Queue
import Lockstep.Drift.Arbiter
import Lockstep.Drift.Monitor
import Lockstep.Handler.Capture
import Lockstep.Journal.Writer
import Lockstep.Peer.Inbox
import Lockstep.Peer.Report
import Lockstep.Watch.Buffer

/-! # Peers

A peer simulates the world of a host, scope by scope and tick by tick. What happens in a tick depends on
the world, the scope's random stream and the commands due, so peers that start alike and receive the
same commands stay alike.
-/

namespace Lockstep

/-- What a peer keeps for a scope. -/
structure ScopeState where
  /-- The tick to simulate next. -/
  next : Tick
  stream : RandomStream
  queue : CommandQueue := .empty
  drift : DriftMonitor
  journal : Option JournalWriter := none

/-- Someone who wants to hear of divergences. -/
abbrev Listener := String

/-- A peer. -/
structure Peer (W : Type) where
  config : SyncConfig
  table : HandlerTable W
  world : W
  scopes : SortedMap ScopeId ScopeState := .empty
  inbox : Inbox
  /-- What the peer has sent, the latest first. -/
  outbox : List Outbound := []
  throttle : Throttle := {}
  /-- No scope simulates beyond this tick; without a limit, no scope is held back. -/
  tickLimit : Option Tick := none
  buffer : ChangeBuffer := {}
  arbiter : DriftArbiter
  id : PeerId := 0
  /-- What the player points at. -/
  ambient : Ambient := {}
  /-- Divergences that nobody has taken yet. -/
  divergences : List Divergence := []
  /-- Divergences that have been reported, taken or not. -/
  reported : List Divergence := []
  listeners : List Listener := []
  /-- What the listeners have been told, the latest first. -/
  heard : List (Listener × Divergence) := []

namespace Peer

variable {W : Type}

/-- A scope that starts at a tick. -/
def startScope (config : SyncConfig) (scope : ScopeId) (start : Tick) : ScopeState where
  next := start
  stream := .ofScope config.seed scope
  drift := .new config.driftSampleCapacity config.driftExchangeInterval

/-- A peer with the global scope, at its first tick. -/
def create (config : SyncConfig) (table : HandlerTable W) (world : W) : Except SetupError (Peer W) := do
  config.validate.mapError .config
  let inbox ← (Inbox.create config.maxInboundQueue).mapError .brokeDown
  (DriftMonitor.reserve config.driftSampleCapacity).mapError .brokeDown
  return {
    config, table, world, inbox
    scopes := SortedMap.empty.insert .global (startScope config .global 0)
    arbiter := .new config.driftHistory }

/-! ## Scopes -/

/-- Add a scope that starts at a tick. -/
def addScope (peer : Peer W) (scope : ScopeId) (start : Tick) : Except PeerError (Peer W) :=
  if peer.scopes.contains scope then .error (.duplicateScope scope)
  else .ok { peer with scopes := peer.scopes.insert scope (startScope peer.config scope start) }

/-- Forget all divergences of a scope. -/
def clearDrift (peer : Peer W) (scope : ScopeId) : Peer W :=
  { peer with
    arbiter := peer.arbiter.clear scope
    reported := peer.reported.filter (·.scope != scope)
    divergences := peer.divergences.filter (·.scope != scope) }

/-- Take a scope away, with everything that belongs to it. -/
def removeScope [World W] (peer : Peer W) (scope : ScopeId) : Except PeerError (Peer W) :=
  if peer.scopes.contains scope then
    let peer := { peer with
      scopes := peer.scopes.erase scope
      buffer := peer.buffer.removeScope scope }
    let peer := peer.clearDrift scope
    .ok { peer with world := World.scopeRemoved scope peer.world }
  else .error (.unknownScope scope)

/-- The tick that a scope simulates next. -/
def nextTick? (peer : Peer W) (scope : ScopeId) : Option Tick := (peer.scopes.get? scope).map (·.next)

/-- Where the stream of a scope stands. -/
def streamState? (peer : Peer W) (scope : ScopeId) : Option StreamState :=
  (peer.scopes.get? scope).map (·.stream.state)

/-- How many commands wait in a scope. -/
def queued (peer : Peer W) (scope : ScopeId) : Nat :=
  match peer.scopes.get? scope with
  | some state => state.queue.size
  | none => 0

/-- Act on the world and on the stream of a scope outside of its ticks. -/
def withScope {α : Type} (peer : Peer W) (scope : ScopeId)
    (body : CallContext → HostState W → α × HostState W) : Except PeerError (α × Peer W) :=
  match peer.scopes.get? scope with
  | none => .error (.unknownScope scope)
  | some state =>
    let context := { scope, tick := state.next, debugMode := peer.config.debugMode }
    let (value, host) := body context { world := peer.world, stream := state.stream }
    .ok (value, { peer with
      world := host.world
      scopes := peer.scopes.insert scope { state with stream := host.stream } })

/-! ## Divergences -/

/-- Ask to be told of divergences. -/
def addListener (peer : Peer W) (listener : Listener) : Peer W :=
  { peer with listeners := peer.listeners ++ [listener] }

/-- Report a divergence, once. -/
def report (peer : Peer W) (divergence : Divergence) : Peer W :=
  if peer.reported.contains divergence then peer
  else { peer with
    reported := divergence :: peer.reported
    heard := (peer.listeners.reverse.map (·, divergence)) ++ peer.heard
    divergences := peer.divergences ++ [divergence] }

/-- Weigh an opinion, and report what comes of it. -/
def submit (peer : Peer W) (author : PeerId) (opinion : DriftOpinion) : Peer W :=
  let (divergence, arbiter) := peer.arbiter.submit author opinion
  let peer := { peer with arbiter }
  match divergence with
  | some divergence => peer.report divergence
  | none => peer

/-- The divergences that nobody has taken yet. -/
def takeDivergences (peer : Peer W) : List Divergence × Peer W :=
  (peer.divergences, { peer with divergences := [] })

/-- What the listeners have been told since this was asked last, in order. -/
def takeHeard (peer : Peer W) : List (Listener × Divergence) × Peer W :=
  (peer.heard.reverse, { peer with heard := [] })

/-! ## Messages -/

/-- Raise the tick limit; it never falls. -/
def raiseTickLimit (peer : Peer W) (tick : Tick) : Peer W :=
  { peer with tickLimit := some ((peer.tickLimit.map (max · tick)).getD tick) }

/-- Queue a command in its scope; one for an unknown scope is dropped. -/
def enqueue (peer : Peer W) (command : Command) : Peer W :=
  { peer with scopes := peer.scopes.modify command.scope fun state =>
      { state with queue := state.queue.push command } }

/-- Take in one message. -/
def receive (peer : Peer W) : Inbound → Peer W
  | .command arrived => peer.enqueue arrived
  | .tickLimit limit => peer.raiseTickLimit limit
  | .opinion author bytes =>
    match DriftOpinion.decode bytes with
    | .ok opinion => peer.submit author opinion
    | .error _ => peer
  | .diverged divergence => peer.report divergence

/-- Take in all messages that have arrived; the answer is their number. -/
def pump (peer : Peer W) : Nat × Peer W :=
  let emptied := { peer with inbox := { peer.inbox with messages := [] } }
  (peer.inbox.messages.length, peer.inbox.messages.foldl receive emptied)

/-- Send a message. -/
def send (peer : Peer W) (message : Outbound) : Peer W := { peer with outbox := message :: peer.outbox }

/-- What the peer has sent, in order, and the peer with nothing sent. -/
def drainOutbox (peer : Peer W) : List Outbound × Peer W :=
  (peer.outbox.reverse, { peer with outbox := [] })

/-- Put deliveries into an inbox one after another, unless one of them fails. -/
def deliverAll (tick : Tick) (deliveries : List (ScopeId × Bytes)) (inbox : Inbox) :
    Except TransportError Inbox :=
  deliveries.foldlM (fun inbox delivery => Inbound.ofDelivery delivery.1 tick delivery.2 >>= inbox.send) inbox

/-- Deliver the commands that the peer has sent to the peer itself, stamped with one tick, and take them
in; the answer is their number. A delivery that fails is a breakdown. -/
def loopBack (peer : Peer W) (tick : Tick) : Except Breakdown (Nat × Peer W) := do
  let commands := Outbound.commands peer.outbox.reverse
  let inbox ← (deliverAll tick commands peer.inbox).mapError fun error =>
    ⟨some ("loopback delivery: " ++ error.kind)⟩
  let outbox := peer.outbox.filter fun
    | .command _ _ => false
    | .opinion _ => true
  return (commands.length, ({ peer with inbox, outbox } : Peer W).pump.2)

/-! ## Captures -/

/-- Capture the setting of a field. -/
def captureField (peer : Peer W) (handle : Handle) (scope : ScopeId) (target : Value) (index : Option Int32)
    (value : Value) : Except CaptureError (Peer W) := do
  let pending ← peer.table.captureField peer.config.debugMode handle scope peer.ambient target index value
  return peer.send pending.message

/-- Capture an operation. Time is in milliseconds. -/
def captureOperation (peer : Peer W) (now : Nat) (handle : Handle) (scope : ScopeId) (target : Value)
    (arguments : List Value) : Except CaptureError (Peer W) := do
  let (pending?, throttle) ← peer.table.captureOperation peer.config.debugMode peer.throttle now handle scope
    peer.ambient target arguments
  let peer := { peer with throttle }
  return match pending? with
    | some pending => peer.send pending.message
    | none => peer

/-- Capture a closure. -/
def captureClosure (peer : Peer W) (handle : Handle) (scope : ScopeId) (environment : Environment) :
    Except CaptureError (Peer W) := do
  let pending ← peer.table.captureClosure peer.config.debugMode handle scope peer.ambient environment
  return peer.send pending.message

/-! ## Fields -/

/-- Look at a field of the peer's own world. -/
def readField (peer : Peer W) (handle : Handle) (scope : ScopeId) (target : Value) (index : Option Int32) :
    Except CaptureError (Option Value) := do
  let (_, handler) ← peer.table.field handle
  return handler.get peer.world scope target index

/-- Set a field of the peer's own world at once: no command is sent, and no hook runs. -/
def writeField (peer : Peer W) (handle : Handle) (scope : ScopeId) (target : Value) (index : Option Int32)
    (value : Value) : Except CaptureError (Except HostFault Unit × Peer W) := do
  let (_, handler) ← peer.table.field handle
  return match handler.set scope target index value peer.world with
    | .ok () world => (.ok (), { peer with world })
    | .error fault world => (.error fault, { peer with world })

end Peer

end Lockstep
