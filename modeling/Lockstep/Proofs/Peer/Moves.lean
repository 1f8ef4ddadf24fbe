import Lockstep.Peer.Replay
import Lockstep.Peer.Watch
import Lockstep.Proofs.Cluster.Creation
import Lockstep.Proofs.Peer.Atomic
import Lockstep.Proofs.Peer.Record
import Lockstep.Proofs.Peer.Stage

/-! # Everything that happens to a peer

A move is anything that a peer may be asked for or that may happen to it. Moves that have to do with
divergences are told from the errands, which leave all that the peer knows of them as it is
(`Peer.alarms_errand`). There is little that a move can come to (`PeerMove.ends`). What is created and
kept up by moves is what a peer can come to be (`Peer.Reachable`).
-/

namespace Lockstep

/-- What a peer may be asked for that has nothing to do with divergences. A request that fails may have
done something before. -/
inductive PeerErrand (W : Type) where
  /-- A message arrives, and waits in the inbox unless there is no room. -/
  | deliver (message : Inbound)
  /-- What the peer has sent is taken over by the transport, but for what stays. -/
  | handOver (stays : Outbound → Bool)
  | raiseTickLimit (tick : Tick)
  | addScope (scope : ScopeId) (start : Tick)
  | withScope (scope : ScopeId) (body : CallContext → HostState W → HostState W)
  | edit (change : W → W)
  | setId (id : PeerId)
  | pointAt (ambient : Ambient)
  | capture (now : Nat) (handle : Handle) (scope : ScopeId) (request : Request)
  | beginWatch (handle : Handle) (scope : ScopeId) (target : Value) (index : Option Int32)
  | endWatch (serial now : Nat)
  | flush (now : Nat) (force : Bool)
  | startJournal (scope : ScopeId)
  | takeJournal (scope : ScopeId)
  | replay (bytes : Bytes)

/-- What may happen to a peer. -/
inductive PeerMove (W : Type) where
  | quiet (errand : PeerErrand W)
  | pump
  | advance (scope : ScopeId)
  | advanceAll
  | runUntil (scope : ScopeId) (tick : Tick)
  | takeDivergences
  | listen (listener : Listener)
  | clearDrift (scope : ScopeId)
  | removeScope (scope : ScopeId)

/-- What a peer knows of divergences, and who is to be told of them. -/
structure Alarms where
  arbiter : DriftArbiter
  divergences : List Divergence
  reported : List Divergence
  listeners : List Listener
  heard : List (Listener × Divergence)

variable {W : Type} [World W]

/-- Do an errand. -/
def PeerErrand.run (peer : Peer W) : PeerErrand W → Peer W
  | deliver message => { peer with inbox := peer.inbox.post (.ok message) }
  | handOver stays => { peer with outbox := peer.outbox.filter stays }
  | raiseTickLimit tick => peer.raiseTickLimit tick
  | addScope scope start => ((Peer.Action.addScope scope start).run peer).2
  | withScope scope body =>
    match peer.withScope scope fun context state => ((), body context state) with
    | .ok (_, after) => after
    | .error _ => peer
  | edit change => { peer with world := change peer.world }
  | setId id => { peer with id }
  | pointAt ambient => { peer with ambient }
  | capture now handle scope request => ((Peer.Action.capture now handle scope request).run peer).2
  | beginWatch handle scope target index => (peer.beginWatch handle scope target index).2
  | endWatch serial now => (peer.endWatch serial now).2
  | flush now force => (peer.flush now force).2
  | startJournal scope =>
    match peer.startJournal scope with
    | .ok after => after
    | .error _ => peer
  | takeJournal scope => (peer.takeJournal scope).2
  | replay bytes => (peer.replay bytes).2

/-- Make a move. Only a run of ticks may never return. -/
def PeerMove.run (peer : Peer W) : PeerMove W → Option (Peer W)
  | .quiet errand => some (errand.run peer)
  | .pump => some peer.pump.2
  | .advance scope => some (peer.advance scope).2
  | .advanceAll => some peer.advanceAll.2
  | .runUntil scope tick => (peer.runUntil scope tick).map (·.2)
  | .takeDivergences => some peer.takeDivergences.2
  | .listen listener => some (peer.addListener listener)
  | .clearDrift scope => some (peer.clearDrift scope)
  | .removeScope scope => some ((Peer.Action.removeScope scope).run peer).2

namespace Peer

/-- Make moves, one after another. -/
def play (peer : Peer W) (moves : List (PeerMove W)) : Option (Peer W) := moves.foldlM PeerMove.run peer

/-- What a peer can come to be. -/
def Reachable (peer : Peer W) : Prop :=
  ∃ config table world start moves, create config table world = .ok start ∧ start.play moves = some peer

/-- A peer with nothing left of a scope. -/
def without (peer : Peer W) (scope : ScopeId) : Peer W :=
  { peer.clearDrift scope with
    scopes := peer.scopes.erase scope
    buffer := peer.buffer.removeScope scope
    world := World.scopeRemoved scope peer.world }

theorem Action.run_removeScope_of_known {peer : Peer W} {scope : ScopeId}
    (known : peer.scopes.contains scope = true) :
    (Action.removeScope scope).run peer = (.ok (), peer.without scope) := by
  rw [Action.run_removeScope, Peer.removeScope, if_pos known]
  rfl

theorem Action.run_removeScope_of_unknown {peer : Peer W} {scope : ScopeId}
    (unknown : peer.scopes.contains scope = false) :
    (Action.removeScope scope).run peer = (.error (.unknownScope scope), peer) := by
  rw [Action.run_removeScope, Peer.removeScope, if_neg (Bool.eq_false_iff.mp unknown)]
  rfl

/-! ## Errands -/

def alarms (peer : Peer W) : Alarms where
  arbiter := peer.arbiter
  divergences := peer.divergences
  reported := peer.reported
  listeners := peer.listeners
  heard := peer.heard

omit [World W] in
/-- A peer that has just been created knows of no divergences. -/
theorem alarms_of_create {config : SyncConfig} {table : HandlerTable W} {world : W} {start : Peer W}
    (created : create config table world = .ok start) :
    start.alarms = ⟨.new config.driftHistory, [], [], [], []⟩ := by
  obtain ⟨-, rfl⟩ := @create_eq_ok W ⟨config, table, world, []⟩ start created
  rfl

omit [World W] in
theorem alarms_foldl_send (messages : List Outbound) (peer : Peer W) :
    (messages.foldl send peer).alarms = peer.alarms := by
  induction messages generalizing peer with
  | nil => rfl
  | cons message messages ih => exact ih (peer.send message)

omit [World W] in
/-- A capture leaves its mark on the outbox and on the throttle alone. -/
theorem marks_capture (peer : Peer W) (now : Nat) (handle : Handle) (scope : ScopeId) (request : Request) :
    ∃ outbox throttle, ((Action.capture now handle scope request).run peer).2 =
      { peer with outbox, throttle } := by
  rw [Action.run_capture]
  cases peer.table.capture peer.config.debugMode peer.throttle now handle scope peer.ambient request with
  | error error => exact ⟨peer.outbox, peer.throttle, rfl⟩
  | ok entry =>
    obtain ⟨_ | pending, throttle⟩ := entry
    · exact ⟨peer.outbox, throttle, rfl⟩
    · exact ⟨pending.message :: peer.outbox, throttle, rfl⟩

/-- Recorded ticks leave their mark on the world and on scopes alone. -/
theorem marks_replayFrames {scope : ScopeId} {frames : List JournalFrame} {matched : Nat}
    {peer after : Peer W} {outcome : ReplayOutcome}
    (replayed : replayFrames scope frames matched peer = .ok (outcome, after)) :
    ∃ world scopes, after = { peer with world, scopes } := by
  induction frames generalizing peer matched with
  | nil =>
    cases replayed
    exact ⟨after.world, after.scopes, rfl⟩
  | cons frame frames ih =>
    rw [replayFrames] at replayed
    split at replayed
    next => cases replayed
    next state found =>
      obtain ⟨world, scopes, framed⟩ : ∃ world scopes,
          (peer.replayFrame scope state frame).2 = { peer with world, scopes } := ⟨_, _, rfl⟩
      split at replayed
      next next ran =>
        rw [ran] at framed
        subst framed
        obtain ⟨world, scopes, same⟩ := ih replayed
        exact ⟨world, scopes, same⟩
      next next ran =>
        rw [ran] at framed
        cases replayed
        exact ⟨world, scopes, framed⟩

/-- A replay leaves its mark there, however it ends. -/
theorem marks_replay (peer : Peer W) (bytes : Bytes) :
    ∃ world scopes, (peer.replay bytes).2 = { peer with world, scopes } := by
  have begun (scopes : SortedMap ScopeId ScopeState) {frames : List JournalFrame} {scope : ScopeId}
      {after : Peer W} {outcome : ReplayOutcome}
      (replayed : replayFrames scope frames 0 { peer with scopes } = .ok (outcome, after)) :
      ∃ world scopes, after = { peer with world, scopes } := by
    obtain ⟨world, scopes, same⟩ := marks_replayFrames replayed
    exact ⟨world, scopes, same⟩
  unfold replay
  split
  next => exact ⟨peer.world, peer.scopes, rfl⟩
  next reader _ =>
    split
    next => exact ⟨peer.world, peer.scopes, rfl⟩
    next state _ =>
      dsimp only
      split
      next => exact ⟨peer.world, _, rfl⟩
      next replayed => exact begun _ replayed
      next replayed =>
        split
        next => exact begun _ replayed
        next => exact begun _ replayed

/-- An errand leaves all that is known of divergences as it is. -/
theorem alarms_errand (peer : Peer W) (errand : PeerErrand W) :
    (errand.run peer).alarms = peer.alarms := by
  cases errand with
  | deliver message => rfl
  | handOver stays => rfl
  | raiseTickLimit tick => rfl
  | addScope scope start =>
    rw [PeerErrand.run, Action.run_addScope, addScope]
    split
    next => rfl
    next => rfl
  | withScope scope body =>
    rw [PeerErrand.run, withScope]
    cases peer.scopes.get? scope with
    | none => rfl
    | some state => rfl
  | edit change => rfl
  | setId id => rfl
  | pointAt ambient => rfl
  | capture now handle scope request =>
    obtain ⟨outbox, throttle, captured⟩ := peer.marks_capture now handle scope request
    rw [PeerErrand.run, captured]
    rfl
  | beginWatch handle scope target index => rfl
  | endWatch serial now => rfl
  | flush now force => exact alarms_foldl_send _ peer
  | startJournal scope =>
    rw [PeerErrand.run, startJournal]
    cases peer.scopes.get? scope with
    | none => rfl
    | some state => rfl
  | takeJournal scope => rfl
  | replay bytes =>
    obtain ⟨world, scopes, replayed⟩ := peer.marks_replay bytes
    rw [PeerErrand.run, replayed]
    rfl

end Peer

/-! ## Moves -/

/-- What a move comes to: an errand is done, messages are taken in and ticks are simulated, divergences
are taken or listened for, or a scope is cleared or taken away. -/
inductive PeerMove.Ends (peer : Peer W) : Peer W → Prop
  | errand (errand : PeerErrand W) : Ends peer (errand.run peer)
  | works {last : Peer W} {records : List TickRecord} (works : peer.Works records last) : Ends peer last
  | heeded {last : Peer W} (stage : last.stage = peer.stage) (arbiter : last.arbiter = peer.arbiter) :
      Ends peer last
  | cleared (scope : ScopeId) : Ends peer (peer.clearDrift scope)
  | removed {scope : ScopeId} (removed : peer.removeScope scope = .ok (peer.without scope)) :
      Ends peer (peer.without scope)

theorem PeerMove.ends {peer last : Peer W} {move : PeerMove W} (moved : move.run peer = some last) :
    Ends peer last := by
  cases move with
  | quiet errand =>
    cases moved
    exact .errand errand
  | pump =>
    cases moved
    exact .works (.pump (.rest _))
  | advance scope =>
    cases moved
    rw [Peer.advance_eq_record]
    exact .works (Peer.works_recordAdvance peer scope)
  | advanceAll =>
    cases moved
    rw [Peer.advanceAll_eq_record]
    exact .works (Peer.works_recordAll peer)
  | runUntil scope tick =>
    rw [run, Peer.runUntil_eq_record, Option.map_map] at moved
    obtain ⟨⟨result, records, final⟩, recorded, rfl⟩ := Option.map_eq_some_iff.mp moved
    exact .works (Peer.works_recordWithin recorded)
  | takeDivergences =>
    cases moved
    exact .heeded rfl rfl
  | listen listener =>
    cases moved
    exact .heeded rfl rfl
  | clearDrift scope =>
    cases moved
    exact .cleared scope
  | removeScope scope =>
    cases moved
    cases known : peer.scopes.contains scope with
    | true =>
      have removed : peer.removeScope scope = .ok (peer.without scope) := by
        rw [Peer.removeScope, if_pos known]
        rfl
      rw [Peer.Action.run_removeScope_of_known known]
      exact .removed removed
    | false =>
      rw [Peer.Action.run_removeScope_of_unknown known]
      exact .heeded rfl rfl

end Lockstep
