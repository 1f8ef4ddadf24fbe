import Lockstep.Proofs.Peer.Core
import Lockstep.Proofs.Watch.Cells

/-! # What watches of a peer act on

The stage of a peer is its world, its buffer of changes, and what they are read with. Messages leave
the stage as it is, whatever they are, and so do all traces of a tick: only the commands that are
due and the scope's own tick act on the world (`stage_advance`).
-/

namespace Lockstep

/-- The part of a peer that watches act on, and what they read it with. -/
structure Stage (W : Type) where
  config : SyncConfig
  table : HandlerTable W
  world : W
  buffer : ChangeBuffer

namespace Peer

variable {W : Type}

def stage (peer : Peer W) : Stage W where
  config := peer.config
  table := peer.table
  world := peer.world
  buffer := peer.buffer

@[simp] theorem stage_report (peer : Peer W) (divergence : Divergence) :
    (peer.report divergence).stage = peer.stage := by
  unfold report
  split <;> rfl

@[simp] theorem stage_submit (peer : Peer W) (author : PeerId) (opinion : DriftOpinion) :
    (peer.submit author opinion).stage = peer.stage := by
  unfold submit
  dsimp only
  split
  · exact stage_report _ _
  · rfl

@[simp] theorem stage_receive (peer : Peer W) (message : Inbound) :
    (peer.receive message).stage = peer.stage := by
  cases message with
  | command arrived => rfl
  | tickLimit limit => rfl
  | opinion author bytes =>
    simp only [receive]
    split
    · exact stage_submit _ _ _
    · rfl
  | diverged divergence => exact stage_report _ _

@[simp] theorem stage_pump (peer : Peer W) : peer.pump.2.stage = peer.stage :=
  pump_keeps stage (fun _ => rfl) stage_receive peer

/-- The commands that a peer delivers to itself leave the stage as it is. -/
theorem stage_loopBack {peer after : Peer W} {tick : Tick} {count : Nat}
    (looped : peer.loopBack tick = .ok (count, after)) : after.stage = peer.stage := by
  obtain ⟨inbox, -, taken⟩ := bind_eq_ok.mp looped
  cases taken
  exact stage_pump _

theorem stage_foldl_send (messages : List Outbound) (peer : Peer W) :
    (messages.foldl send peer).stage = peer.stage := by
  induction messages generalizing peer with
  | nil => rfl
  | cons message messages ih => exact ih (peer.send message)

@[simp] theorem stage_publish [World W] (peer : Peer W) (opinion : DriftOpinion) :
    (peer.publish opinion).stage = peer.stage := by
  unfold publish
  cases opinion.encode with
  | ok bytes => exact stage_submit _ _ _
  | error error => exact stage_submit _ _ _

/-! ## Watching -/

/-- An action of watches leaves its mark on the world and on the buffer, however it ends. -/
theorem stage_watching {α : Type} (peer : Peer W) (action : Watching W α) :
    (peer.watching action).2.stage =
      { peer.stage with
        world := (Lockstep.stateAfter (action ⟨peer.buffer, peer.world⟩)).world
        buffer := (Lockstep.stateAfter (action ⟨peer.buffer, peer.world⟩)).buffer } := by
  rw [watching, Watching.run]
  cases action ⟨peer.buffer, peer.world⟩ with
  | ok _ _ => rfl
  | error _ _ => rfl

/-- A flush leaves its mark on the buffer alone, whatever it sends. -/
theorem stage_flush (peer : Peer W) (now : Nat) (force : Bool) :
    ∃ send : BufferedChange → Except CaptureError Outbound, (peer.flush now force).2.stage =
      { peer.stage with
        buffer := (peer.buffer.flush peer.table peer.world now peer.nextTick?
          peer.config.flushInterval force send).2 } := by
  refine ⟨fun change => PendingCommand.message <$>
    peer.table.captureField peer.config.debugMode change.handle change.scope peer.ambient
      change.target change.index change.pending, ?_⟩
  obtain ⟨messages, sent⟩ : ∃ messages : List Outbound, (peer.flush now force).2 =
      { messages.foldl send peer with buffer := (peer.flush now force).2.buffer } := ⟨_, rfl⟩
  have same := stage_foldl_send messages peer
  have config : (messages.foldl send peer).config = peer.config := congrArg Stage.config same
  have table : (messages.foldl send peer).table = peer.table := congrArg Stage.table same
  have world : (messages.foldl send peer).world = peer.world := congrArg Stage.world same
  rw [sent, stage, config, table, world]
  rfl

variable [World W]

/-- A scope that goes takes its changes with it. -/
theorem stage_removeScope {peer after : Peer W} {scope : ScopeId}
    (removed : peer.removeScope scope = .ok after) :
    after.stage = { peer.stage with
      world := World.scopeRemoved scope peer.world
      buffer := peer.buffer.removeScope scope } := by
  rw [Peer.removeScope] at removed
  split at removed
  next =>
    cases removed
    rfl
  next => cases removed

/-! ## Simulating a tick -/

/-- The tick that a scope simulates next, if it does not have to wait: where it happens, the
commands due, and the state that they find. -/
def dueTick? (peer : Peer W) (scope : ScopeId) :
    Option (CallContext × List Command × HostState W) :=
  match peer.pump.2.scopes.get? scope with
  | none => none
  | some state =>
    if peer.pump.2.tickLimit.any (· < state.next) then none
    else some ({ scope, tick := state.next, debugMode := peer.config.debugMode },
      state.queue.due state.next,
      { world := peer.world, stream := state.stream })

theorem stage_runTick (peer : Peer W) (scope : ScopeId) (state : ScopeState) :
    (peer.runTick scope state).2.stage =
      { peer.stage with world := (peer.simulate scope state).world } := by
  simp only [runTick]
  split
  next => rw [stage_publish]; rfl
  next => rfl

/-- A peer that does not have to wait runs the commands due, and then its scope's own tick. -/
theorem stage_advance_due {peer : Peer W} {scope : ScopeId} {context : CallContext}
    {commands : List Command} {host : HostState W}
    (due : peer.dueTick? scope = some (context, commands, host)) :
    host.world = peer.world ∧ (peer.advance scope).2.stage =
      { peer.stage with
        world := (World.tickScope context
          (runCommands peer.table context commands host).2).world } := by
  unfold dueTick? at due
  split at due
  next => cases due
  next state found =>
    split at due
    next => cases due
    next free =>
      cases due
      have advanced : (peer.advance scope).2 = (peer.pump.2.runTick scope state).2 := by
        rw [advance]
        simp only [found, if_neg free]
      have same : peer.pump.2.stage = peer.stage := stage_pump peer
      have config : peer.pump.2.config = peer.config := congrArg Stage.config same
      have table : peer.pump.2.table = peer.table := congrArg Stage.table same
      have world : peer.pump.2.world = peer.world := congrArg Stage.world same
      refine ⟨rfl, ?_⟩
      rw [advanced, stage_runTick, same, simulate, config, table, world]

/-- A peer that has to wait, or does not know the scope, only takes in messages. -/
theorem stage_advance_waiting {peer : Peer W} {scope : ScopeId}
    (waiting : peer.dueTick? scope = none) : (peer.advance scope).2.stage = peer.stage := by
  have pumped : (peer.advance scope).2 = peer.pump.2 := by
    unfold dueTick? at waiting
    unfold advance
    split at waiting
    next unknown => simp only [unknown]
    next state found =>
      split at waiting
      next held => simp only [found, if_pos held]
      next => cases waiting
  rw [pumped, stage_pump]

end Peer

end Lockstep
