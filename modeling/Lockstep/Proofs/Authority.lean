import Lockstep.Authority
import Lockstep.Proofs.Format.Reading
import Lockstep.Proofs.Peer.Abreast

/-! # What an authority tells

Handling what has arrived stamps commands and weighs opinions, and leaves the tick and the delay
alone. The commands that the peers are told are those that arrived, in order, all for a tick to
come.
-/

namespace Lockstep

/-- A delivery fixes the tick and the scope of its command. -/
theorem Command.tick_ofDelivery {scope : ScopeId} {tick : Tick} {bytes : Bytes} {arrived : Command}
    (read : Command.ofDelivery scope tick bytes = .ok arrived) : arrived.tick = tick := by
  obtain ⟨_, read⟩ := Decoder.outcome_eq_ok.mp read
  obtain ⟨handler, _, -, read⟩ := Decoder.bind_eq_ok.mp read
  obtain ⟨payload, _, -, read⟩ := Decoder.bind_eq_ok.mp read
  obtain ⟨rfl, -⟩ := Decoder.pure_eq_ok.mp read
  rfl

namespace Authority

/-- The command that a message becomes. -/
def stamp? (authority : Authority) : Outbound → Option Command
  | .command scope bytes =>
      (Command.ofDelivery scope (authority.tick.offset authority.delay) bytes).toOption
  | .opinion _ => none

/-- The commands that the authority stamps when it handles what has arrived, in the order of their
arrival. -/
def stamps (authority : Authority) : List Command :=
  authority.waiting.reverse.filterMap fun message => authority.stamp? message.2

@[simp] theorem tick_handle (authority : Authority) (peer : PeerId) (message : Outbound) :
    (authority.handle peer message).2.tick = authority.tick := by
  cases message with
  | command scope bytes => rfl
  | opinion bytes =>
    simp only [handle]
    split <;> rfl

@[simp] theorem delay_handle (authority : Authority) (peer : PeerId) (message : Outbound) :
    (authority.handle peer message).2.delay = authority.delay := by
  cases message with
  | command scope bytes => rfl
  | opinion bytes =>
    simp only [handle]
    split <;> rfl

@[simp] theorem waiting_handle (authority : Authority) (peer : PeerId) (message : Outbound) :
    (authority.handle peer message).2.waiting = authority.waiting := by
  cases message with
  | command scope bytes => rfl
  | opinion bytes =>
    simp only [handle]
    split <;> rfl

theorem stamp?_congr {first second : Authority} (tick : first.tick = second.tick)
    (delay : first.delay = second.delay) : first.stamp? = second.stamp? := by
  funext message
  cases message with
  | command scope bytes => simp only [stamp?, tick, delay]
  | opinion bytes => rfl

/-- What the peers are told of a message: the command that it becomes, or news of a divergence. -/
theorem told_handle (authority : Authority) (peer : PeerId) (message : Outbound) :
    (∃ arrived, authority.stamp? message = some arrived ∧
      (authority.handle peer message).1 = some (.command arrived)) ∨
      authority.stamp? message = none ∧
        ((authority.handle peer message).1 = none ∨
          ∃ divergence, (authority.handle peer message).1 = some (.diverged divergence)) := by
  cases message with
  | command scope bytes =>
    simp only [stamp?, handle, Inbound.ofDelivery]
    cases Command.ofDelivery scope (authority.tick.offset authority.delay) bytes with
    | ok arrived => exact .inl ⟨arrived, rfl, rfl⟩
    | error error => exact .inr ⟨rfl, .inl rfl⟩
  | opinion bytes =>
    refine .inr ⟨rfl, ?_⟩
    simp only [handle]
    split
    · exact .inl rfl
    next opinion _ =>
      rcases (authority.arbiter.submit peer opinion).1 with _ | divergence
      · exact .inl rfl
      · exact .inr ⟨divergence, rfl⟩

/-- The commands told are those that arrived, in order. -/
theorem commands_handleAll (messages : List (PeerId × Outbound)) (authority : Authority) :
    Inbound.commands (handleAll messages authority).1 = messages.filterMap fun message =>
      authority.stamp? message.2 := by
  induction messages generalizing authority with
  | nil => rfl
  | cons message messages ih =>
    obtain ⟨peer, message⟩ := message
    have later : (authority.handle peer message).2.stamp? = authority.stamp? :=
      stamp?_congr (tick_handle _ _ _) (delay_handle _ _ _)
    simp only [handleAll, Inbound.commands_append, ih, later, List.filterMap_cons]
    rcases told_handle authority peer message
      with ⟨arrived, stamped, told⟩ | ⟨stamped, told | ⟨divergence, told⟩⟩
    · rw [stamped, told]
      rfl
    · rw [stamped, told]
      rfl
    · rw [stamped, told]
      rfl

/-- A command is stamped with the tick that is the delay ahead. -/
theorem tick_of_stamp? {authority : Authority} {message : Outbound} {arrived : Command}
    (stamped : authority.stamp? message = some arrived) :
    arrived.tick = authority.tick.offset authority.delay := by
  cases message with
  | command scope bytes =>
    simp only [stamp?] at stamped
    cases read : Command.ofDelivery scope (authority.tick.offset authority.delay) bytes with
    | ok other =>
      rw [read] at stamped
      cases stamped
      exact Command.tick_ofDelivery read
    | error error =>
      rw [read] at stamped
      cases stamped
  | opinion bytes => cases stamped

/-- With a delay, what the peers are told is for ticks to come. -/
theorem timely_handleAll {messages : List (PeerId × Outbound)} {authority : Authority}
    (delayed : 0 < authority.delay.toNat)
    (inside : authority.tick.toNat + authority.delay.toNat < UInt32.size) :
    ∀ message ∈ (handleAll messages authority).1, message.Timely authority.tick := by
  induction messages generalizing authority with
  | nil => exact nofun
  | cons message messages ih =>
    obtain ⟨peer, message⟩ := message
    intro told member
    simp only [handleAll] at member
    rcases List.mem_append.mp member with member | member
    · rw [Option.mem_toList] at member
      rcases told_handle authority peer message
        with ⟨arrived, stamped, same⟩ | ⟨-, same | ⟨divergence, same⟩⟩
      · rw [same] at member
        cases member
        refine ⟨nofun, ?_⟩
        intro other same
        cases same
        rw [tick_of_stamp? stamped, UInt32.lt_iff_toNat_lt, Tick.toNat_offset]
        omega
      · rw [same] at member
        cases member
      · rw [same] at member
        cases member
        exact ⟨nofun, nofun⟩
    · have still : 0 < (authority.handle peer message).2.delay.toNat := by rwa [delay_handle]
      have later := ih still (by rwa [tick_handle, delay_handle]) told member
      rwa [tick_handle] at later

theorem tick_handleAll (messages : List (PeerId × Outbound)) (authority : Authority) :
    (handleAll messages authority).2.tick = authority.tick := by
  induction messages generalizing authority with
  | nil => rfl
  | cons message messages ih => exact (ih _).trans (tick_handle _ _ _)

theorem delay_handleAll (messages : List (PeerId × Outbound)) (authority : Authority) :
    (handleAll messages authority).2.delay = authority.delay := by
  induction messages generalizing authority with
  | nil => rfl
  | cons message messages ih => exact (ih _).trans (delay_handle _ _ _)

@[simp] theorem tick_pump (authority : Authority) : authority.pump.2.tick = authority.tick :=
  tick_handleAll _ _

@[simp] theorem delay_pump (authority : Authority) : authority.pump.2.delay = authority.delay :=
  delay_handleAll _ _

@[simp] theorem commands_pump (authority : Authority) :
    Inbound.commands authority.pump.1 = authority.stamps :=
  commands_handleAll _ _

theorem timely_pump {authority : Authority} (delayed : 0 < authority.delay.toNat)
    (inside : authority.tick.toNat + authority.delay.toNat < UInt32.size) :
    ∀ message ∈ authority.pump.1, message.Timely authority.tick := by
  have emptied : 0 < ({ authority with waiting := [] } : Authority).delay.toNat := delayed
  exact timely_handleAll emptied inside

end Authority

end Lockstep
