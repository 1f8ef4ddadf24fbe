import Lockstep.Proofs.Peer.Foresight

/-! # The course of a peer

On its course a peer is reached by commands, takes in messages and is asked to advance scopes, in any
order. If every command is in time, a course comes to what its advances alone come to for a peer that
foresees all that arrives (`run_foresee`).
-/

namespace Lockstep

variable {W : Type}

/-- What a peer meets with on its course. -/
inductive PeerEvent where
  /-- A command arrives, and waits in the inbox unless there is no room. -/
  | arrive (command : Command)
  | pump
  | advance (scope : ScopeId)
  deriving DecidableEq, Repr

namespace PeerEvent

/-- The command that arrives, if one does. -/
def command? : PeerEvent → Option Command
  | arrive command => some command
  | pump => none
  | advance _ => none

/-- The scope that is advanced, if one is. -/
def scope? : PeerEvent → Option ScopeId
  | arrive _ => none
  | pump => none
  | advance scope => some scope

/-- The commands that arrive, in order. -/
def arrivals (events : List PeerEvent) : List Command := events.filterMap command?

/-- The scopes that are advanced, in order. -/
def advances (events : List PeerEvent) : List ScopeId := events.filterMap scope?

end PeerEvent

/-- A peer on its course, with what its advances have answered, the latest answer first. -/
structure Course (W : Type) where
  peer : Peer W
  answers : List (Except PeerError (Option TickReport)) := []

namespace Course

/-- The reports on the ticks simulated, the latest first. -/
def reports (course : Course W) : List TickReport :=
  course.answers.filterMap fun
    | .ok report? => report?
    | .error _ => none

/-- A command is in time: there is room for it, its scope has not gone beyond its tick, and has not
simulated it. The last tick can be simulated several times, so a scope may stand at a tick that it has
simulated. Messages are taken in before a tick is simulated, so a command that has arrived by then has
been taken in. -/
structure InTime (course : Course W) (command : Command) : Prop where
  listening : course.peer.inbox.isClosed = false
  room : course.peer.inbox.messages.length < course.peer.inbox.capacity
  ahead : ∀ next, course.peer.nextTick? command.scope = some next → next ≤ command.tick
  unsimulated : ∀ report ∈ course.reports, report.scope = command.scope → report.tick ≠ command.tick

instance (course : Course W) (command : Command) : Decidable (course.InTime command) :=
  -- Asks about the one tick that can be next, not about every tick there is.
  have : Decidable (∀ next ∈ course.peer.nextTick? command.scope, next ≤ command.tick) :=
    Option.decidableForallMem _
  decidable_of_iff
    ((course.peer.inbox.isClosed = false ∧
      course.peer.inbox.messages.length < course.peer.inbox.capacity) ∧
      (∀ next ∈ course.peer.nextTick? command.scope, next ≤ command.tick) ∧
      ∀ report ∈ course.reports, report.scope = command.scope → report.tick ≠ command.tick)
    ⟨fun ⟨⟨listening, room⟩, ahead, unsimulated⟩ => ⟨listening, room, ahead, unsimulated⟩,
      fun inTime => ⟨⟨inTime.listening, inTime.room⟩, inTime.ahead, inTime.unsimulated⟩⟩

variable [World W]

/-- Meet with one event. -/
def meet (course : Course W) : PeerEvent → Course W
  | .arrive command => { course with peer := course.peer.hear command }
  | .pump => { course with peer := course.peer.pump.2 }
  | .advance scope => {
      peer := (course.peer.advance scope).2
      answers := (course.peer.advance scope).1 :: course.answers }

/-- Meet with events one after another. -/
def run (course : Course W) (events : List PeerEvent) : Course W := events.foldl meet course

/-- Every command that arrives is in time. -/
def AllInTime : Course W → List PeerEvent → Prop
  | _, [] => True
  | course, event :: events =>
    (∀ command ∈ event.command?, course.InTime command) ∧ (course.meet event).AllInTime events

instance decidableAllInTime : (course : Course W) → (events : List PeerEvent) →
    Decidable (course.AllInTime events)
  | _, [] => inferInstanceAs (Decidable True)
  | course, event :: events =>
    have := decidableAllInTime (course.meet event) events
    inferInstanceAs (Decidable (_ ∧ _))

/-- A course on which the peer foresees commands. -/
def foresee (course : Course W) (coming : List Command) : Course W :=
  { course with peer := course.peer.foresee coming }

/-! ## Commands in time -/

theorem reports_meet {course : Course W} {report : TickReport} (event : PeerEvent)
    (known : report ∈ course.reports) : report ∈ (course.meet event).reports := by
  cases event with
  | arrive command => exact known
  | pump => exact known
  | advance scope =>
    obtain ⟨answer, member, shown⟩ := List.mem_filterMap.mp known
    exact List.mem_filterMap.mpr ⟨answer, List.mem_cons_of_mem _ member, shown⟩

/-- An advance that simulates a tick adds its report, and another one adds none. -/
theorem reports_advance (course : Course W) (scope : ScopeId) :
    ((course.meet (.advance scope)).reports = course.reports ∧
      ∀ report, (course.peer.advance scope).1 ≠ .ok (some report)) ∨
    ∃ report, (course.peer.advance scope).1 = .ok (some report) ∧
      (course.meet (.advance scope)).reports = report :: course.reports := by
  cases answered : (course.peer.advance scope).1 with
  | error error => exact .inl ⟨by simp [reports, meet, answered], nofun⟩
  | ok report? =>
    cases report? with
    | none => exact .inl ⟨by simp [reports, meet, answered], nofun⟩
    | some report => exact .inr ⟨report, rfl, by simp [reports, meet, answered]⟩

theorem next_le_meet {course : Course W} {scope : ScopeId} {next : Tick} (event : PeerEvent)
    (known : course.peer.nextTick? scope = some next) :
    ∃ after, (course.meet event).peer.nextTick? scope = some after ∧ next ≤ after := by
  cases event with
  | arrive command => exact ⟨next, known, UInt32.le_refl next⟩
  | pump => exact ⟨next, (Peer.nextTick?_pump _ _).trans known, UInt32.le_refl next⟩
  | advance other => exact Peer.next_le_advance known

/-- Commands in time are in time from the start, but for the room that they find. -/
theorem AllInTime.arrivals {course : Course W} {events : List PeerEvent}
    (inTime : course.AllInTime events) {command : Command}
    (member : command ∈ PeerEvent.arrivals events) :
    (∀ next, course.peer.nextTick? command.scope = some next → next ≤ command.tick) ∧
      ∀ report ∈ course.reports, report.scope = command.scope → report.tick ≠ command.tick := by
  induction events generalizing course with
  | nil => cases member
  | cons event events ih =>
    obtain ⟨here, rest⟩ := inTime
    obtain ⟨other, among, arrives⟩ := List.mem_filterMap.mp member
    rcases List.mem_cons.mp among with rfl | among
    · have inTime := here command arrives
      exact ⟨inTime.ahead, inTime.unsimulated⟩
    · obtain ⟨ahead, unsimulated⟩ := ih rest (List.mem_filterMap.mpr ⟨other, among, arrives⟩)
      refine ⟨fun next known => ?_, fun report known => unsimulated report (reports_meet event known)⟩
      obtain ⟨after, later, below⟩ := next_le_meet event known
      exact UInt32.le_trans below (ahead after later)

/-- A tick does not show whether commands in time for later ones have arrived before it. -/
theorem foresee_advance {course : Course W} {scope : ScopeId} {events : List PeerEvent}
    (inTime : (course.meet (.advance scope)).AllInTime events) :
    (course.meet (.advance scope)).foresee (PeerEvent.arrivals events) =
      (course.foresee (PeerEvent.arrivals events)).meet (.advance scope) := by
  have later : ∀ command ∈ PeerEvent.arrivals events, command.scope = scope → ∀ report,
      (course.peer.pump.2.advance scope).1 = .ok (some report) → report.tick < command.tick := by
    intro command member own report answered
    rw [Peer.advance_pump] at answered
    obtain ⟨ahead, unsimulated⟩ := inTime.arrivals member
    obtain ⟨here, -, after⟩ := Peer.nextTick?_of_report answered
    have below : report.tick.next ≤ command.tick := ahead _ (own ▸ after)
    have known : report ∈ (course.meet (.advance scope)).reports := by
      rcases reports_advance course scope with ⟨-, silent⟩ | ⟨other, same, added⟩
      · exact absurd answered (silent report)
      · rw [answered] at same
        cases same
        exact added ▸ List.mem_cons_self
    have apart := unsimulated report known (here.trans own.symm)
    exact UInt32.lt_of_le_of_ne (UInt32.le_trans (Tick.le_next report.tick) below) apart
  have idle : course.peer.pump.2.inbox.messages = [] := by rw [Peer.inbox_pump]
  have commute := Peer.advance_foldl_enqueue idle later
  rw [Peer.advance_pump] at commute
  have still := Peer.pump_of_none (Peer.idle_advance course.peer scope)
  simp only [meet, foresee, Peer.foresee, commute, still]

/-- A course comes to what its advances come to for a peer that foresees what arrives. -/
theorem run_foresee {course : Course W} {events : List PeerEvent} (inTime : course.AllInTime events) :
    (course.run events).foresee [] =
      (course.foresee (PeerEvent.arrivals events)).run
        ((PeerEvent.advances events).map .advance) := by
  induction events generalizing course with
  | nil => rfl
  | cons event events ih =>
    obtain ⟨here, rest⟩ := inTime
    refine (ih rest).trans ?_
    cases event with
    | arrive command =>
      have inTime := here command rfl
      have heard : (course.meet (.arrive command)).foresee (PeerEvent.arrivals events) =
          course.foresee (PeerEvent.arrivals (.arrive command :: events)) :=
        congrArg (Course.mk · course.answers)
          (Peer.foresee_hear inTime.listening inTime.room (PeerEvent.arrivals events))
      rw [heard]
      rfl
    | pump =>
      have pumped : (course.meet .pump).foresee (PeerEvent.arrivals events) =
          course.foresee (PeerEvent.arrivals events) := by
        simp only [meet, foresee, Peer.foresee, Peer.pump_pump]
      rw [pumped]
      rfl
    | advance scope =>
      rw [foresee_advance rest]
      rfl

end Course

end Lockstep
