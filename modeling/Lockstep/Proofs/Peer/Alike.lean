import Lockstep.Proofs.Peer.Core

/-! # Peers that are alike

What a peer simulates depends on its core alone. Two peers with the same core take in messages alike
and simulate alike, whatever they know of divergences and whatever their players do: they return the
same reports, and in the end they still have the same core.
-/

namespace Lockstep.Peer

variable {W : Type} {first second : Peer W}

/-- Peers that nothing they simulate tells apart. -/
def Alike (first second : Peer W) : Prop := first.core = second.core

namespace Alike

theorem trans {third : Peer W} (left : Alike first second) (right : Alike second third) :
    Alike first third :=
  Eq.trans left right

theorem symm (alike : Alike first second) : Alike second first := Eq.symm alike

theorem scopes (alike : Alike first second) : first.scopes = second.scopes :=
  congrArg Core.scopes alike

theorem tickLimit (alike : Alike first second) : first.tickLimit = second.tickLimit :=
  congrArg Core.tickLimit alike

theorem inbox (alike : Alike first second) : first.inbox = second.inbox := congrArg Core.inbox alike

theorem outbox (alike : Alike first second) : first.outbox = second.outbox :=
  congrArg Core.outbox alike

/-! ## Taking in messages -/

theorem receive (alike : Alike first second) (message : Inbound) :
    Alike (first.receive message) (second.receive message) := by
  have same : first.core = second.core := alike
  cases message with
  | command arrived =>
    have enqueued (peer : Peer W) : (peer.receive (.command arrived)).core = { peer.core with
        scopes := peer.core.scopes.modify arrived.scope fun state =>
          { state with queue := state.queue.push arrived } } := rfl
    rw [Alike, enqueued, enqueued, same]
  | tickLimit limit =>
    have raised (peer : Peer W) : (peer.receive (.tickLimit limit)).core = { peer.core with
        tickLimit := some ((peer.core.tickLimit.map (max · limit)).getD limit) } := rfl
    rw [Alike, raised, raised, same]
  | opinion author bytes => rw [Alike, core_receive_opinion, core_receive_opinion, same]
  | diverged divergence => rw [Alike, core_receive_diverged, core_receive_diverged, same]

theorem foldl_receive (alike : Alike first second) (messages : List Inbound) :
    Alike (messages.foldl Peer.receive first) (messages.foldl Peer.receive second) := by
  induction messages generalizing first second with
  | nil => exact alike
  | cons message messages ih => exact ih (alike.receive message)

theorem pump (alike : Alike first second) : Alike first.pump.2 second.pump.2 := by
  have same : first.core = second.core := alike
  have emptied : Alike first.emptied second.emptied := by
    have core (peer : Peer W) :
      peer.emptied.core = { peer.core with inbox := { peer.core.inbox with messages := [] } } := rfl
    rw [Alike, core, core, same]
  rw [pump_eq_foldl, pump_eq_foldl, alike.inbox]
  exact emptied.foldl_receive _

/-! ## Simulating -/

variable [World W]

theorem simulate (alike : Alike first second) (scope : ScopeId) (state : ScopeState) :
    first.simulate scope state = second.simulate scope state := by
  have config : first.config = second.config := congrArg Core.config alike
  have table : first.table = second.table := congrArg Core.table alike
  have world : first.world = second.world := congrArg Core.world alike
  rw [Peer.simulate, Peer.simulate, config, table, world]

/-- Alike peers run a tick to the same report, and are alike after it. -/
theorem runTick (alike : Alike first second) (scope : ScopeId) (state : ScopeState) :
    (first.runTick scope state).1 = (second.runTick scope state).1 ∧
      Alike (first.runTick scope state).2 (second.runTick scope state).2 := by
  have simulated := alike.simulate scope state
  have after : first.stateAfter scope state = second.stateAfter scope state := by
    rw [Peer.stateAfter, Peer.stateAfter, simulated]
  have opinion : first.opinionAfter? scope state = second.opinionAfter? scope state := by
    rw [opinionAfter?, opinionAfter?, simulated]
  have core : first.core = second.core := alike
  refine ⟨congrArg Simulated.report simulated, ?_⟩
  rw [Alike, core_runTick, core_runTick, simulated, after, opinion, alike.scopes,
    alike.outbox, core]

theorem advance (alike : Alike first second) (scope : ScopeId) :
    (first.advance scope).1 = (second.advance scope).1 ∧
      Alike (first.advance scope).2 (second.advance scope).2 := by
  have pumped := alike.pump
  simp only [Peer.advance, pumped.scopes, pumped.tickLimit]
  cases second.pump.2.scopes.get? scope with
  | none => exact ⟨rfl, pumped⟩
  | some state =>
    simp only
    split
    · exact ⟨rfl, pumped⟩
    · obtain ⟨report, after⟩ := pumped.runTick scope state
      exact ⟨by rw [report], after⟩

theorem advanceEach (alike : Alike first second) (scopes : List ScopeId) :
    (first.advanceEach scopes).1 = (second.advanceEach scopes).1 ∧
      Alike (first.advanceEach scopes).2 (second.advanceEach scopes).2 := by
  induction scopes generalizing first second with
  | nil => exact ⟨rfl, alike⟩
  | cons scope scopes ih =>
    obtain ⟨result, advanced⟩ := alike.advance scope
    obtain ⟨reports, after⟩ := ih advanced
    simp only [Peer.advanceEach, result, reports]
    split
    · exact ⟨rfl, after⟩
    · exact ⟨rfl, after⟩

theorem advanceAll (alike : Alike first second) :
    first.advanceAll.1 = second.advanceAll.1 ∧ Alike first.advanceAll.2 second.advanceAll.2 := by
  have pumped := alike.pump
  have all (peer : Peer W) :
    peer.advanceAll = peer.pump.2.advanceEach peer.pump.2.scopes.keys := rfl
  rw [all, all, pumped.scopes]
  exact pumped.advanceEach _

theorem catchUpWithin {rounds : Nat} {reports answer : List TickReport} {final : Peer W}
    (alike : Alike first second)
    (caught : Peer.catchUpWithin rounds first reports = some (answer, final)) :
    ∃ other, Peer.catchUpWithin rounds second reports = some (answer, other) ∧
      Alike final other := by
  induction rounds generalizing first second reports with
  | zero => cases caught
  | succ rounds ih =>
    obtain ⟨more, after⟩ := alike.advanceAll
    rcases round : first.advanceAll with ⟨_ | ⟨report, rest⟩, peer⟩
    · rcases other : second.advanceAll with ⟨others, peer'⟩
      rw [round, other] at more after
      cases more
      simp only [Peer.catchUpWithin, round, other] at caught ⊢
      cases caught
      exact ⟨peer', rfl, after⟩
    · rcases other : second.advanceAll with ⟨others, peer'⟩
      rw [round, other] at more after
      cases more
      simp only [Peer.catchUpWithin, round, other] at caught ⊢
      exact ih after caught

/-- Alike peers catch up with the same reports, and are alike after it. -/
theorem catchUp {answer : List TickReport} {final : Peer W} (alike : Alike first second)
    (caught : first.catchUp = some (answer, final)) :
    ∃ other, second.catchUp = some (answer, other) ∧ Alike final other := by
  have pumped := alike.pump
  simp only [Peer.catchUp, pumped.scopes, pumped.tickLimit] at caught ⊢
  cases limited : second.pump.2.tickLimit with
  | none =>
    rw [limited] at caught
    cases caught
  | some limit =>
    rw [limited] at caught
    exact pumped.catchUpWithin caught

end Alike

end Lockstep.Peer
