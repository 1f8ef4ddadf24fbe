import Lockstep.Proofs.Peer.Record

/-! # What peers simulate on

The core of a peer is the part of its state that its simulation reads and changes: the settings, the
world, the scopes, what waits in and out, and the tick limit. What a peer knows of divergences, what
its player points at and what is buffered has no effect on it, and messages about divergences leave
it as it is (`core_submit`, `core_report`).
-/

namespace Lockstep

/-- The part of a peer that simulation reads and changes. -/
structure Core (W : Type) where
  config : SyncConfig
  table : HandlerTable W
  world : W
  scopes : SortedMap ScopeId ScopeState
  inbox : Inbox
  outbox : List Outbound
  tickLimit : Option Tick

namespace Peer

variable {W : Type}

def core (peer : Peer W) : Core W where
  config := peer.config
  table := peer.table
  world := peer.world
  scopes := peer.scopes
  inbox := peer.inbox
  outbox := peer.outbox
  tickLimit := peer.tickLimit

@[simp] theorem core_report (peer : Peer W) (divergence : Divergence) :
    (peer.report divergence).core = peer.core := by
  unfold report
  split <;> rfl

@[simp] theorem core_submit (peer : Peer W) (author : PeerId) (opinion : DriftOpinion) :
    (peer.submit author opinion).core = peer.core := by
  unfold submit
  dsimp only
  split
  · exact core_report _ _
  · rfl

/-- Opinions and notices of divergence leave the core as it is. -/
theorem core_receive_opinion (peer : Peer W) (author : PeerId) (bytes : Bytes) :
    (peer.receive (.opinion author bytes)).core = peer.core := by
  simp only [receive]
  split
  · exact core_submit _ _ _
  · rfl

theorem core_receive_diverged (peer : Peer W) (divergence : Divergence) :
    (peer.receive (.diverged divergence)).core = peer.core := core_report _ _

/-- The inbox of a peer as it is once its messages have been taken out. -/
def emptied (peer : Peer W) : Peer W := { peer with inbox := { peer.inbox with messages := [] } }

theorem pump_eq_foldl (peer : Peer W) :
    peer.pump.2 = peer.inbox.messages.foldl receive peer.emptied :=
  rfl

@[simp] theorem inbox_receive (peer : Peer W) (message : Inbound) :
    (peer.receive message).inbox = peer.inbox := by
  cases message with
  | command => rfl
  | tickLimit => rfl
  | opinion author bytes => exact congrArg Core.inbox (core_receive_opinion peer author bytes)
  | diverged divergence => exact congrArg Core.inbox (core_receive_diverged peer divergence)

theorem outbox_receive (peer : Peer W) (message : Inbound) :
    (peer.receive message).outbox = peer.outbox := by
  cases message with
  | command => rfl
  | tickLimit => rfl
  | opinion author bytes => exact congrArg Core.outbox (core_receive_opinion peer author bytes)
  | diverged divergence => exact congrArg Core.outbox (core_receive_diverged peer divergence)

@[simp] theorem inbox_foldl_receive (messages : List Inbound) (peer : Peer W) :
    (messages.foldl receive peer).inbox = peer.inbox := by
  induction messages generalizing peer with
  | nil => rfl
  | cons message messages ih => rw [List.foldl_cons, ih, inbox_receive]

@[simp] theorem inbox_pump (peer : Peer W) :
    peer.pump.2.inbox = { peer.inbox with messages := [] } := by
  rw [pump_eq_foldl, inbox_foldl_receive]
  rfl

/-- A message changes nothing of a scope but its queue. -/
theorem map_receive {α : Type} {view : ScopeState → α}
    (queueless : ∀ state queue, view { state with queue } = view state) (peer : Peer W)
    (message : Inbound) (scope : ScopeId) :
    ((peer.receive message).scopes.get? scope).map view = (peer.scopes.get? scope).map view := by
  cases message with
  | command arrived =>
    simp only [receive, enqueue]
    by_cases same : scope = arrived.scope
    · subst same
      simp [Function.comp_def, queueless]
    · rw [SortedMap.get?_modify_of_ne _ _ same]
  | tickLimit => rfl
  | opinion author bytes =>
    exact congrArg (fun core => (core.scopes.get? scope).map view)
      (core_receive_opinion peer author bytes)
  | diverged divergence =>
    exact congrArg (fun core => (core.scopes.get? scope).map view)
      (core_receive_diverged peer divergence)

theorem nextTick?_receive (peer : Peer W) (message : Inbound) (scope : ScopeId) :
    (peer.receive message).nextTick? scope = peer.nextTick? scope :=
  map_receive (fun _ _ => rfl) peer message scope

/-- What no message changes, taking in all of them leaves as it is. -/
theorem pump_keeps {α : Type} (view : Peer W → α) (emptied : ∀ peer, view peer.emptied = view peer)
    (receive : ∀ peer message, view (peer.receive message) = view peer) (peer : Peer W) :
    view peer.pump.2 = view peer := by
  rw [pump_eq_foldl, ← emptied peer]
  generalize peer.emptied = other
  induction peer.inbox.messages generalizing other with
  | nil => rfl
  | cons message messages ih => rw [List.foldl_cons, ih, receive]

/-- Taking in messages simulates nothing. -/
@[simp] theorem nextTick?_pump (peer : Peer W) (scope : ScopeId) :
    peer.pump.2.nextTick? scope = peer.nextTick? scope :=
  pump_keeps (·.nextTick? scope) (fun _ => rfl) (nextTick?_receive · · scope) peer

/-! ## Simulating a tick -/

variable [World W]

/-- A scope after its next tick. -/
def stateAfter (peer : Peer W) (scope : ScopeId) (state : ScopeState) : ScopeState :=
  let done := peer.simulate scope state
  { done.state with
    drift := ((done.samples.foldl (·.record state.next ·) state.drift).endTick scope state.next).2
    journal := state.journal.map
      (·.record { tick := state.next, commands := done.commands, state := done.state.stream.state }) }

/-- The opinion that a tick closes a window with, if one is due. -/
def opinionAfter? (peer : Peer W) (scope : ScopeId) (state : ScopeState) : Option DriftOpinion :=
  (((peer.simulate scope state).samples.foldl (·.record state.next ·) state.drift).endTick scope
    state.next).1

/-- The message that carries an opinion, unless it cannot be written. -/
def voice (opinion : DriftOpinion) : List Outbound :=
  match opinion.encode with
  | .ok bytes => [.opinion bytes]
  | .error _ => []

@[simp] theorem next_stateAfter (peer : Peer W) (scope : ScopeId) (state : ScopeState) :
    (peer.stateAfter scope state).next = state.next.next := rfl

@[simp] theorem queue_stateAfter (peer : Peer W) (scope : ScopeId) (state : ScopeState) :
    (peer.stateAfter scope state).queue = state.queue.later state.next := rfl

omit [World W] in
theorem core_publish (peer : Peer W) (opinion : DriftOpinion) :
    (peer.publish opinion).core = { peer.core with outbox := voice opinion ++ peer.outbox } := by
  unfold publish voice
  cases opinion.encode <;> exact core_submit _ _ _

/-- A live tick changes the world and its own scope, and sends the opinion that it closes with. -/
theorem core_runTick (peer : Peer W) (scope : ScopeId) (state : ScopeState) :
    (peer.runTick scope state).2.core =
      { peer.core with
        world := (peer.simulate scope state).world
        scopes := peer.scopes.insert scope (peer.stateAfter scope state)
        outbox := ((peer.opinionAfter? scope state).map voice).getD [] ++ peer.outbox } := by
  simp only [runTick]
  split
  next opinion due =>
    have due : peer.opinionAfter? scope state = some opinion := due
    rw [due]
    exact core_publish _ _
  next due =>
    have due : peer.opinionAfter? scope state = none := due
    rw [due]
    rfl

theorem scopes_runTick (peer : Peer W) (scope : ScopeId) (state : ScopeState) :
    (peer.runTick scope state).2.scopes = peer.scopes.insert scope (peer.stateAfter scope state) :=
  congrArg Core.scopes (core_runTick peer scope state)

@[simp] theorem inbox_runTick (peer : Peer W) (scope : ScopeId) (state : ScopeState) :
    (peer.runTick scope state).2.inbox = peer.inbox :=
  congrArg Core.inbox (core_runTick peer scope state)

@[simp] theorem tickLimit_runTick (peer : Peer W) (scope : ScopeId) (state : ScopeState) :
    (peer.runTick scope state).2.tickLimit = peer.tickLimit :=
  congrArg Core.tickLimit (core_runTick peer scope state)

/-- Nothing that a peer does closes its inbox. -/
theorem Works.isClosed {peer final : Peer W} {records : List TickRecord}
    (works : Works peer records final) : final.inbox.isClosed = peer.inbox.isClosed := by
  induction works with
  | rest => rfl
  | pump _ ih => rw [ih, inbox_pump]
  | @tick peer _ scope state _ _ _ _ ih =>
    have same : (peer.pump.2.recordTick scope state).2.inbox = peer.pump.2.inbox :=
      inbox_runTick _ _ _
    rw [ih, same, inbox_pump]

/-- After a tick a scope is the one that ran, or the one that it was. -/
theorem get?_runTick {peer : Peer W} {scope other : ScopeId} {state after : ScopeState} :
    (peer.runTick scope state).2.scopes.get? other = some after ↔
      (other = scope ∧ peer.stateAfter scope state = after) ∨
        (other ≠ scope ∧ peer.scopes.get? other = some after) := by
  rw [scopes_runTick, SortedMap.get?_insert_eq_some]

theorem nextTick?_runTick_self (peer : Peer W) (scope : ScopeId) (state : ScopeState) :
    (peer.runTick scope state).2.nextTick? scope = some state.next.next := by
  simp [nextTick?, scopes_runTick]

theorem nextTick?_runTick_of_ne (peer : Peer W) {scope other : ScopeId} (state : ScopeState)
    (ne : other ≠ scope) : (peer.runTick scope state).2.nextTick? other = peer.nextTick? other := by
  simp only [nextTick?, scopes_runTick, SortedMap.get?_insert_of_ne _ _ ne]

end Peer

end Lockstep
