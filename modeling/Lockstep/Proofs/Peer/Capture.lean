import Lockstep.Proofs.Peer.Core
import Lockstep.Proofs.Success

/-! # Captures

A capture sends at most one command, which the peer itself does not run before it comes back with a
tick.
-/

namespace Lockstep

/-- A request to capture a command; times are in milliseconds. -/
inductive Capture where
  | field (handle : Handle) (scope : ScopeId) (target : Value) (index : Option Int32)
      (value : Value)
  | operation (now : Nat) (handle : Handle) (scope : ScopeId) (target : Value)
      (arguments : List Value)
  | closure (handle : Handle) (scope : ScopeId) (environment : Environment)

namespace Peer

variable {W : Type} {peer after : Peer W}

/-- Capture a command with what the player points at. -/
def capture (peer : Peer W) (ambient : Ambient) : Capture → Except CaptureError (Peer W)
  | .field handle scope target index value =>
      { peer with ambient }.captureField handle scope target index value
  | .operation now handle scope target arguments =>
    { peer with ambient }.captureOperation now handle scope target arguments
  | .closure handle scope environment =>
      { peer with ambient }.captureClosure handle scope environment

/-- Capture a command; a capture that is refused leaves the peer as it is. -/
def attempt (peer : Peer W) (ambient : Ambient) (capture : Capture) : Peer W :=
  match peer.capture ambient capture with
  | .ok after => after
  | .error _ => peer

theorem captureField_eq_send {handle : Handle} {scope : ScopeId} {target value : Value}
    {index : Option Int32}
    (captured : peer.captureField handle scope target index value = .ok after) :
    ∃ pending : PendingCommand, after = peer.send pending.message := by
  obtain ⟨pending, -, sent⟩ := bind_eq_ok.mp captured
  exact ⟨pending, (Except.ok.inj sent).symm⟩

theorem captureClosure_eq_send {handle : Handle} {scope : ScopeId} {environment : Environment}
    (captured : peer.captureClosure handle scope environment = .ok after) :
    ∃ pending : PendingCommand, after = peer.send pending.message := by
  obtain ⟨pending, -, sent⟩ := bind_eq_ok.mp captured
  exact ⟨pending, (Except.ok.inj sent).symm⟩

/-- An operation may be held back, which its throttle remembers. -/
theorem captureOperation_eq_send {now : Nat} {handle : Handle} {scope : ScopeId} {target : Value}
    {arguments : List Value}
    (captured : peer.captureOperation now handle scope target arguments = .ok after) :
    ∃ throttle, after = { peer with throttle } ∨
      ∃ pending : PendingCommand,
        after = ({ peer with throttle } : Peer W).send pending.message := by
  obtain ⟨⟨pending?, throttle⟩, -, sent⟩ := bind_eq_ok.mp captured
  refine ⟨throttle, ?_⟩
  cases pending? with
  | none => exact .inl (Except.ok.inj sent).symm
  | some pending => exact .inr ⟨pending, (Except.ok.inj sent).symm⟩

/-- A capture sends commands and nothing else, and changes no more of what the peer simulates on. -/
theorem core_capture {ambient : Ambient} {capture : Capture}
    (captured : peer.capture ambient capture = .ok after) :
    ∃ sent : List PendingCommand,
      after.core = { peer.core with outbox := sent.map PendingCommand.message ++ peer.outbox } := by
  cases capture with
  | field handle scope target index value =>
    obtain ⟨pending, rfl⟩ := captureField_eq_send captured
    exact ⟨[pending], rfl⟩
  | operation now handle scope target arguments =>
    obtain ⟨throttle, rfl | ⟨pending, rfl⟩⟩ := captureOperation_eq_send captured
    · exact ⟨[], rfl⟩
    · exact ⟨[pending], rfl⟩
  | closure handle scope environment =>
    obtain ⟨pending, rfl⟩ := captureClosure_eq_send captured
    exact ⟨[pending], rfl⟩

theorem core_attempt (peer : Peer W) (ambient : Ambient) (capture : Capture) :
    ∃ sent : List PendingCommand, (peer.attempt ambient capture).core =
      { peer.core with outbox := sent.map PendingCommand.message ++ peer.outbox } := by
  unfold attempt
  split
  next captured => exact core_capture captured
  next => exact ⟨[], rfl⟩

/-- A capture sends no opinion. -/
theorem opinions_attempt (peer : Peer W) (ambient : Ambient) (capture : Capture) :
    Outbound.opinions (peer.attempt ambient capture).outbox = Outbound.opinions peer.outbox := by
  obtain ⟨sent, core⟩ := core_attempt peer ambient capture
  have outbox : (peer.attempt ambient capture).outbox = sent.map PendingCommand.message ++ peer.outbox :=
    congrArg Core.outbox core
  have silent : Outbound.opinions (sent.map PendingCommand.message) = [] := by
    rw [Outbound.opinions, List.filterMap_map]
    exact List.filterMap_eq_nil_iff.mpr fun _ _ => rfl
  rw [outbox, Outbound.opinions, List.filterMap_append, ← Outbound.opinions, ← Outbound.opinions, silent,
    List.nil_append]

end Peer

end Lockstep
