import Lockstep.Peer.Replay
import Lockstep.Proofs.Peer.CatchUp
import Lockstep.Proofs.Peer.Course
import Lockstep.Proofs.World.Lab

/-! # Timing does not matter

When commands reach a peer, and when it takes them in, makes no difference as long as every command is
in time and the commands for a tick of a scope keep their order. Whatever else the peer takes in, its
ticks come out the same (`timing_is_immaterial`).
-/

namespace Lockstep

variable {W : Type}

namespace Peer

/-- No command held for a scope has missed its tick. -/
def IsPunctual (peer : Peer W) (scope : ScopeId) : Prop :=
  peer.HoldsOnly scope fun next command => next ≤ command.tick

/-- Nothing but commands waits in the inbox. -/
def AwaitsCommands (peer : Peer W) : Prop :=
  ∀ message ∈ peer.inbox.messages, ∃ command, message = .command command

/-- Taking in commands reports no divergence. -/
theorem divergences_pump {peer : Peer W} (awaits : peer.AwaitsCommands) :
    peer.pump.2.divergences = peer.divergences := by
  suffices steps : ∀ (messages : List Inbound) (other : Peer W),
      (∀ message ∈ messages, ∃ command, message = .command command) →
        (messages.foldl receive other).divergences = other.divergences from steps _ _ awaits
  intro messages
  induction messages with
  | nil => exact fun _ _ => rfl
  | cons message messages ih =>
    intro other among
    obtain ⟨⟨command, rfl⟩, rest⟩ := List.forall_mem_cons.mp among
    exact ih (other.receive (.command command)) rest

/-- A tick of a punctual scope runs no stale command. -/
theorem IsPunctual.stale [World W] {peer : Peer W} {scope : ScopeId}
    (punctual : peer.IsPunctual scope) {report : TickReport}
    (answered : (peer.advance scope).1 = .ok (some report)) : report.stale = 0 := by
  rcases advance_cases peer scope with ⟨-, silent⟩ | ⟨state, found, ran⟩
  · exact absurd answered (silent report)
  · rw [ran] at answered
    cases answered
    exact CommandQueue.countStale_eq_zero fun command member =>
      punctual state found command (List.mem_filter.mp member).1

end Peer

namespace Course

variable [World W]

theorem run_awaits {course : Course W} {events : List PeerEvent}
    (either : PeerEvent.advances events ≠ [] ∨ course.peer.AwaitsCommands) :
    (course.run events).peer.AwaitsCommands := by
  induction events generalizing course with
  | nil => exact either.resolve_left fun advanced => advanced rfl
  | cons event events ih =>
    refine ih ?_
    cases event with
    | arrive command =>
      refine either.imp_right fun awaits message member => ?_
      rcases Inbox.post_cases course.peer.inbox (.command command) with posted | lost
      · have waiting : message ∈ course.peer.inbox.messages ++ [.command command] := by
          simpa only [meet, Peer.hear, posted] using member
        rcases List.mem_append.mp waiting with before | last
        · exact awaits message before
        · exact ⟨command, List.mem_singleton.mp last⟩
      · exact awaits message (by simpa only [meet, Peer.hear, lost] using member)
    | pump =>
      refine .inr fun message member => ?_
      simp only [meet, Peer.inbox_pump, List.not_mem_nil] at member
    | advance scope =>
      refine .inr fun message member => ?_
      simp only [meet, Peer.idle_advance, List.not_mem_nil] at member

/-- On a course on which all commands are in time, no command of a punctual scope is stale. -/
theorem stale_run {course : Course W} {events : List PeerEvent} {scope : ScopeId}
    (inTime : course.AllInTime events) (punctual : course.peer.IsPunctual scope)
    (before : ∀ report ∈ course.reports, report.scope = scope → report.stale = 0) :
    ∀ report ∈ (course.run events).reports, report.scope = scope → report.stale = 0 := by
  induction events generalizing course with
  | nil => exact before
  | cons event events ih =>
    obtain ⟨here, rest⟩ := inTime
    cases event with
    | arrive command =>
      have inTime := here command rfl
      exact ih rest (punctual.enqueue (Peer.pump_hear inTime.listening inTime.room) fun own =>
        own ▸ inTime.ahead) before
    | pump => exact ih rest punctual.pump before
    | advance other =>
      have stays (next : Tick) (command : Command) (_ : next ≤ command.tick)
          (later : next < command.tick) : next.next ≤ command.tick := Tick.next_le_of_lt later
      refine ih rest (punctual.advance stays other) fun report member own => ?_
      rcases reports_advance course other with ⟨same, -⟩ | ⟨latest, answered, same⟩
      · exact before report (same ▸ member) own
      · rw [same] at member
        rcases List.mem_cons.mp member with rfl | earlier
        · obtain ⟨here, -⟩ := Peer.nextTick?_of_report answered
          obtain rfl : other = scope := here.symm.trans own
          exact punctual.stale answered
        · exact before report earlier own

/-- Two courses have come to the same. -/
structure Concordant (first second : Course W) : Prop where
  answers : first.answers = second.answers
  /-- With nothing left to take in, the peers are the same in every respect. -/
  pumped : first.peer.pump.2 = second.peer.pump.2
  world : first.peer.world = second.peer.world
  streams (scope : ScopeId) : first.peer.streamState? scope = second.peer.streamState? scope
  ticks (scope : ScopeId) : first.peer.nextTick? scope = second.peer.nextTick? scope
  journals (scope : ScopeId) : (first.peer.takeJournal scope).1 = (second.peer.takeJournal scope).1
  sent : first.peer.outbox = second.peer.outbox

omit [World W] in
/-- What taking in messages leaves alone need not be taken in to be compared. -/
theorem Concordant.of_pumped {first second : Course W} (answers : first.answers = second.answers)
    (pumped : first.peer.pump.2 = second.peer.pump.2) : Concordant first second := by
  have standing : first.peer.standing = second.peer.standing := by
    rw [← Peer.standing_pump first.peer, pumped, Peer.standing_pump]
  have views {α : Type} {view : ScopeState → α} (queueless : ∀ state : ScopeState,
      view { state with queue := .empty } = view state) (scope : ScopeId) :
      (first.peer.scopes.get? scope).map view = (second.peer.scopes.get? scope).map view := by
    rw [← Peer.map_standing queueless, standing, Peer.map_standing queueless]
  refine ⟨answers, pumped, congrArg Core.world standing, views fun _ => rfl, views fun _ => rfl,
    fun scope => ?_, congrArg Core.outbox standing⟩
  have journal : (first.peer.scopes.get? scope).map ScopeState.journal =
      (second.peer.scopes.get? scope).map ScopeState.journal := views (fun _ => rfl) scope
  have bytes := congrArg (fun journal => (journal.bind id).map JournalWriter.bytes) journal
  simp only [Option.bind_map] at bytes
  exact bytes

/-- Two courses of a peer on which it advances the same scopes and is reached by the same commands for
its scopes come to the same if all commands are in time and those for a tick of a scope come in the
same order. Commands are stale only where the peer has held stale ones from the start. Divergences
are the same as well, unless news of some waits in the inbox and the peer never advances. -/
theorem timing_is_immaterial {peer : Peer W} {events others : List PeerEvent}
    (inTime : (Course.mk peer []).AllInTime events) (inTime' : (Course.mk peer []).AllInTime others)
    (sameAdvances : PeerEvent.advances events = PeerEvent.advances others)
    (sameArrivals : ∀ scope tick, (peer.nextTick? scope).isSome →
      (PeerEvent.arrivals events).filter (·.isFor scope tick) =
        (PeerEvent.arrivals others).filter (·.isFor scope tick)) :
    Concordant ((Course.mk peer []).run events) ((Course.mk peer []).run others) ∧
      (∀ report ∈ ((Course.mk peer []).run events).reports,
        peer.IsPunctual report.scope → report.stale = 0) ∧
      (PeerEvent.advances events ≠ [] ∨ peer.AwaitsCommands →
        ((Course.mk peer []).run events).peer.divergences =
          ((Course.mk peer []).run others).peer.divergences) := by
  have foreseen : (Course.mk peer []).foresee (PeerEvent.arrivals events) =
      (Course.mk peer []).foresee (PeerEvent.arrivals others) :=
    congrArg (Course.mk · []) (Peer.foresee_congr peer sameArrivals)
  have same : ((Course.mk peer []).run events).foresee [] =
      ((Course.mk peer []).run others).foresee [] := by
    rw [run_foresee inTime, run_foresee inTime', foreseen, sameAdvances]
  have answers := congrArg Course.answers same
  have pumped : ((Course.mk peer []).run events).peer.pump.2 =
      ((Course.mk peer []).run others).peer.pump.2 := congrArg Course.peer same
  refine ⟨.of_pumped answers pumped, fun report member punctual => ?_, fun either => ?_⟩
  · exact stale_run inTime punctual nofun report member rfl
  · rw [← Peer.divergences_pump (run_awaits either), pumped,
      Peer.divergences_pump (run_awaits (sameAdvances ▸ either))]

/-! ## On the level -/

/-- A peer that holds a command for the tick that it has just simulated. -/
def latePeer : Peer Lab := ((levelPeer.advance .global).2.hear levelCommand).pump.2

/-- A peer for which news of a divergence waits. -/
def newsPeer : Peer Lab :=
  { levelPeer with inbox := levelPeer.inbox.post (.ok (.diverged ⟨.global, 4, 1⟩)) }

/-- A command that has been late from the start is stale in the next tick, and waiting news shows only
once it is taken in. -/
theorem late_command_is_stale_and_news_is_taken_in :
    ((Course.mk latePeer []).AllInTime [.advance .global] ∧
      ∃ report ∈ ((Course.mk latePeer []).run [.advance .global]).reports, report.stale = 1) ∧
    ((Course.mk newsPeer []).AllInTime [] ∧ (Course.mk newsPeer []).AllInTime [.pump] ∧
      ((Course.mk newsPeer []).run []).peer.divergences ≠
        ((Course.mk newsPeer []).run [.pump]).peer.divergences) := by
  refine ⟨⟨⟨nofun, True.intro⟩, ?_⟩, True.intro, ⟨nofun, True.intro⟩, ?_⟩
  · decide +kernel
  · decide +kernel

/-- Sets the level of the first target to a nine, in the second tick. -/
def nextCommand : Command := { levelCommand with tick := 1, payload := [1, 0, 0, 0, 9, 0, 0, 0] }

/-- Both commands come before the first tick, that for the second tick in front. -/
def earlyEvents : List PeerEvent := [
  .arrive nextCommand, .pump, .arrive levelCommand, .advance .global, .advance .global]

/-- Each command comes just before its tick. -/
def lastEvents : List PeerEvent := [
  .arrive levelCommand, .advance .global, .arrive nextCommand, .advance .global]

/-- The level is a nine in the end, whenever the commands come. -/
theorem level_whenever :
    ((Course.mk levelPeer []).run earlyEvents).answers =
        ((Course.mk levelPeer []).run lastEvents).answers ∧
      ((Course.mk levelPeer []).run earlyEvents).peer.world =
        ((Course.mk levelPeer []).run lastEvents).peer.world ∧
      ((Course.mk levelPeer []).run lastEvents).reports.map (·.executed) = [1, 1] := by
  have same (scope : ScopeId) (tick : Tick) (_ : (levelPeer.nextTick? scope).isSome) :
      (PeerEvent.arrivals earlyEvents).filter (·.isFor scope tick) =
        (PeerEvent.arrivals lastEvents).filter (·.isFor scope tick) := by
    have early : PeerEvent.arrivals earlyEvents = [nextCommand, levelCommand] := rfl
    have last : PeerEvent.arrivals lastEvents = [levelCommand, nextCommand] := rfl
    rw [early, last]
    by_cases first : tick = 0
    · have apart : nextCommand.isFor scope tick = false := by
        simp [Command.isFor, nextCommand, first]
      simp [List.filter_cons, apart]
    · have apart : levelCommand.isFor scope tick = false := by
        simp [Command.isFor, levelCommand, Ne.symm first]
      simp [List.filter_cons, apart]
  have early : (Course.mk levelPeer []).AllInTime earlyEvents := by decide +kernel
  have last : (Course.mk levelPeer []).AllInTime lastEvents := by decide +kernel
  obtain ⟨concordant, -, -⟩ := timing_is_immaterial early last rfl same
  exact ⟨concordant.answers, concordant.world, by decide +kernel⟩

end Course

end Lockstep
