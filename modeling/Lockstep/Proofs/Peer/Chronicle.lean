import Lockstep.Proofs.Cluster.History
import Lockstep.Proofs.Drift
import Lockstep.Proofs.Drift.Monitor
import Lockstep.Proofs.Peer.Foresight

/-! # Chronicles of peers

A chronicle is a peer together with what has happened to it: the messages that it has taken in and the
scopes that it was asked to simulate, with what came of each tick. Keeping it changes nothing of what
the peer does, and it has the reports that the peer gives (`turn_call`) and the opinions that it sends
(`run_sends`). Whatever a peer is asked to do, it does in three kinds of moves: it takes in a message, it
is asked to simulate the next tick of a scope, or it does something that no tick reads. What these keep,
every turn keeps (`Kept.turn`).
-/

namespace Lockstep

/-- What happens to a peer from outside. -/
inductive PeerTurn where
  /-- A message arrives, and waits in the inbox unless there is no room. -/
  | deliver (message : Inbound)
  | call (call : PeerCall)

/-- A tick that was simulated live: what became of each command that ran, in order, the states of the
stream after each of them and after the tick, the opinion that the tick closed a window with, and the
report. -/
structure TickLog where
  runs : List (Command × CommandOutcome)
  samples : List StreamState
  opinion? : Option DriftOpinion
  report : TickReport

/-- What a peer meets with, one thing after another. -/
inductive Moment where
  /-- A message is taken in. If it is a command for a scope that the peer has, this is the tick that the
  scope is to simulate next. -/
  | took (message : Inbound) (next? : Option Tick)
  /-- A scope is asked to simulate its next tick. -/
  | asked (scope : ScopeId) (answer : Except PeerError (Option TickLog))

/-- The opinions that ticks closed windows with. -/
def TickLog.opinions (logs : List TickLog) : List DriftOpinion := logs.filterMap (·.opinion?)

/-- The log of the tick that was simulated, if one was. -/
def TickLog.ofAnswer? : Except PeerError (Option TickLog) → Option TickLog
  | .ok log? => log?
  | .error _ => none

namespace Moment

def tick? : Moment → Option TickLog
  | took _ _ => none
  | asked _ answer => TickLog.ofAnswer? answer

/-- The answer to whoever asked a scope to simulate its next tick. -/
def answer? (scope : ScopeId) : Moment → Option (Except PeerError (Option TickLog))
  | took _ _ => none
  | asked other answer => if other = scope then some answer else none

end Moment

namespace Peer

variable {W : Type}

/-- The tick that the scope of a command is to simulate next. -/
def nextFor? (peer : Peer W) : Inbound → Option Tick
  | .command arrived => peer.nextTick? arrived.scope
  | _ => none

/-- Two peers differ in nothing that a tick reads, and have sent the same opinions. -/
structure OnSameGround (first second : Peer W) : Prop where
  config : first.config = second.config
  table : first.table = second.table
  world : first.world = second.world
  scopes : first.scopes = second.scopes
  tickLimit : first.tickLimit = second.tickLimit
  opinions : Outbound.opinions first.outbox = Outbound.opinions second.outbox

variable [World W]

/-- What becomes of the commands that are due in the next tick of a scope. -/
def outcomes (peer : Peer W) (scope : ScopeId) (state : ScopeState) : List CommandOutcome :=
  (runCommands peer.table { scope, tick := state.next, debugMode := peer.config.debugMode }
    (state.queue.due state.next) { world := peer.world, stream := state.stream }).1.map (·.1)

/-- The log of the next tick of a scope. -/
def logTick (peer : Peer W) (scope : ScopeId) (state : ScopeState) : TickLog where
  runs := (peer.simulate scope state).commands.zip (peer.outcomes scope state)
  samples := (peer.simulate scope state).samples
  opinion? := peer.opinionAfter? scope state
  report := (peer.simulate scope state).report

/-- What a peer that has looked into its inbox answers when it is asked to advance a scope, with the
log of the tick. -/
def logAdvance (peer : Peer W) (scope : ScopeId) : Except PeerError (Option TickLog) :=
  match peer.scopes.get? scope with
  | none => .error (.unknownScope scope)
  | some state =>
    if peer.tickLimit.any (· < state.next) then .ok none else .ok (some (peer.logTick scope state))

end Peer

/-- A peer and what has happened to it, the first thing first. -/
structure Chronicle (W : Type) where
  peer : Peer W
  moments : List Moment := []

namespace Chronicle

variable {W : Type}

/-- The ticks that were simulated, in order. -/
def ticks (chronicle : Chronicle W) : List TickLog := chronicle.moments.filterMap Moment.tick?

/-- What a scope answered when it was asked to simulate its next tick, in order. -/
def answers (chronicle : Chronicle W) (scope : ScopeId) : List (Except PeerError (Option TickLog)) :=
  chronicle.moments.filterMap (Moment.answer? scope)

/-- The ticks that a scope has simulated, in order. -/
def ticksOf (chronicle : Chronicle W) (scope : ScopeId) : List TickLog :=
  (chronicle.answers scope).filterMap TickLog.ofAnswer?

/-- The reports on all ticks. -/
def reports (chronicle : Chronicle W) : List TickReport := chronicle.ticks.map (·.report)

/-! ## Moves -/

/-- Take in a message. -/
def take (chronicle : Chronicle W) (message : Inbound) : Chronicle W where
  peer := chronicle.peer.receive message
  moments := chronicle.moments ++ [.took message (chronicle.peer.nextFor? message)]

/-- Ask a peer that has looked into its inbox to advance a scope. -/
def ask [World W] (chronicle : Chronicle W) (scope : ScopeId) : Chronicle W where
  peer := (chronicle.peer.advance scope).2
  moments := chronicle.moments ++ [.asked scope (chronicle.peer.logAdvance scope)]

/-! ## Turns -/

/-- Go on with a peer to which something happened that is not recorded. -/
def aside (chronicle : Chronicle W) (peer : Peer W) : Chronicle W := { chronicle with peer }

def pump (chronicle : Chronicle W) : Chronicle W :=
  chronicle.peer.inbox.messages.foldl take (chronicle.aside chronicle.peer.emptied)

variable [World W]

def advance (chronicle : Chronicle W) (scope : ScopeId) : Chronicle W := chronicle.pump.ask scope

def advanceEach (chronicle : Chronicle W) (scopes : List ScopeId) : Chronicle W :=
  scopes.foldl advance chronicle

def advanceAll (chronicle : Chronicle W) : Chronicle W :=
  chronicle.pump.advanceEach chronicle.pump.peer.scopes.keys

/-- Advance a scope while its next tick is not later than `tick`, for at most so many ticks. -/
def runWithin (scope : ScopeId) (tick : Tick) : Nat → Chronicle W → Option (Chronicle W)
  | steps, chronicle =>
    match chronicle.peer.nextTick? scope with
    | none => some chronicle
    | some next =>
      if tick < next then some chronicle
      else match steps with
        | 0 => if chronicle.pump.peer.tickLimit.any (· < next) then some chronicle.pump else none
        | steps + 1 =>
          match (chronicle.peer.advance scope).1 with
          | .ok (some _) => runWithin scope tick steps (chronicle.advance scope)
          | _ => some (chronicle.advance scope)

/-- Advance a scope until its next tick is later than `tick` or the tick limit holds it back. -/
def runUntil (chronicle : Chronicle W) (scope : ScopeId) (tick : Tick) : Option (Chronicle W) :=
  runWithin scope tick (tick.toNat + 1 - ((chronicle.peer.nextTick? scope).getD 0).toNat) chronicle

/-- Go on with a turn. Nothing comes of one that does not return. -/
def turn (chronicle : Chronicle W) : PeerTurn → Option (Chronicle W)
  | .deliver message =>
    let inbox := chronicle.peer.inbox.post (.ok message)
    some (chronicle.aside { chronicle.peer with inbox })
  | .call (.capture ambient capture) => some (chronicle.aside (chronicle.peer.attempt ambient capture))
  | .call .pump => some chronicle.pump
  | .call (.advance scope) => some (chronicle.advance scope)
  | .call .advanceAll => some chronicle.advanceAll
  | .call (.runUntil scope tick) => chronicle.runUntil scope tick

/-- Go on with turns, one after another. -/
def run (chronicle : Chronicle W) (turns : List PeerTurn) : Option (Chronicle W) :=
  turns.foldlM turn chronicle

/-! ## A chronicle changes nothing -/

omit [World W] in
theorem foldl_take (messages : List Inbound) (chronicle : Chronicle W) :
    (messages.foldl take chronicle).peer = messages.foldl Peer.receive chronicle.peer ∧
      (messages.foldl take chronicle).ticks = chronicle.ticks := by
  induction messages generalizing chronicle with
  | nil => exact ⟨rfl, rfl⟩
  | cons message messages ih =>
    obtain ⟨peer, ticks⟩ := ih (chronicle.take message)
    refine ⟨peer, ticks.trans ?_⟩
    simp [Chronicle.ticks, take, Moment.tick?]

omit [World W] in
theorem answers_take (chronicle : Chronicle W) (message : Inbound) (scope : ScopeId) :
    (chronicle.take message).answers scope = chronicle.answers scope := by
  simp [answers, take, Moment.answer?]

omit [World W] in
theorem ticksOf_take (chronicle : Chronicle W) (message : Inbound) (scope : ScopeId) :
    (chronicle.take message).ticksOf scope = chronicle.ticksOf scope :=
  congrArg (List.filterMap TickLog.ofAnswer?) (answers_take chronicle message scope)

omit [World W] in
@[simp] theorem peer_pump (chronicle : Chronicle W) : chronicle.pump.peer = chronicle.peer.pump.2 :=
  (foldl_take _ _).1

omit [World W] in
@[simp] theorem ticks_pump (chronicle : Chronicle W) : chronicle.pump.ticks = chronicle.ticks :=
  (foldl_take _ _).2

@[simp] theorem peer_advance (chronicle : Chronicle W) (scope : ScopeId) :
    (chronicle.advance scope).peer = (chronicle.peer.advance scope).2 := by
  rw [advance, ask, peer_pump, Peer.advance_pump]

/-- Who is asked to advance a scope either simulates its next tick, or stays as it is. -/
theorem ask_cases {chronicle : Chronicle W} (idle : chronicle.peer.inbox.messages = [])
    (asked : ScopeId) :
    (∃ answer, TickLog.ofAnswer? answer = none ∧
      chronicle.ask asked = ⟨chronicle.peer, chronicle.moments ++ [.asked asked answer]⟩) ∨
    ∃ state, chronicle.peer.scopes.get? asked = some state ∧
      chronicle.ask asked = ⟨(chronicle.peer.runTick asked state).2,
        chronicle.moments ++ [.asked asked (.ok (some (chronicle.peer.logTick asked state)))]⟩ := by
  have still := Peer.pump_of_none idle
  simp only [ask, Peer.advance, Peer.logAdvance, still]
  cases chronicle.peer.scopes.get? asked with
  | none => exact .inl ⟨_, rfl, rfl⟩
  | some state =>
    dsimp only
    split
    · exact .inl ⟨_, rfl, rfl⟩
    · exact .inr ⟨state, rfl, rfl⟩

omit [World W] in
theorem answers_asked (peer : Peer W) (moments : List Moment) (asked scope : ScopeId)
    (answer : Except PeerError (Option TickLog)) :
    (Chronicle.mk peer (moments ++ [.asked asked answer])).answers scope =
      (Chronicle.mk peer moments).answers scope ++ if asked = scope then [answer] else [] := by
  by_cases own : asked = scope <;> simp [answers, Moment.answer?, own]

omit [World W] in
theorem ticksOf_asked (peer : Peer W) (moments : List Moment) (asked scope : ScopeId)
    (answer : Except PeerError (Option TickLog)) :
    (Chronicle.mk peer (moments ++ [.asked asked answer])).ticksOf scope =
      (Chronicle.mk peer moments).ticksOf scope ++
        if asked = scope then (TickLog.ofAnswer? answer).toList else [] := by
  rw [ticksOf, answers_asked, List.filterMap_append, ticksOf]
  by_cases own : asked = scope
  · rw [if_pos own, if_pos own]
    rfl
  · rw [if_neg own, if_neg own]
    rfl

/-- What this means for a scope: nothing, or the tick of another scope, or its own next tick. -/
theorem ask_cases_of {chronicle : Chronicle W} (idle : chronicle.peer.inbox.messages = [])
    (asked scope : ScopeId) :
    ((chronicle.ask asked).peer = chronicle.peer ∧
      (chronicle.ask asked).ticksOf scope = chronicle.ticksOf scope) ∨
    (∃ state, scope ≠ asked ∧ (chronicle.ask asked).peer = (chronicle.peer.runTick asked state).2 ∧
      (chronicle.ask asked).ticksOf scope = chronicle.ticksOf scope) ∨
    ∃ state, asked = scope ∧ chronicle.peer.scopes.get? scope = some state ∧
      (chronicle.ask asked).peer = (chronicle.peer.runTick scope state).2 ∧
      (chronicle.ask asked).ticksOf scope =
        chronicle.ticksOf scope ++ [chronicle.peer.logTick scope state] := by
  rcases ask_cases idle asked with ⟨answer, silent, after⟩ | ⟨state, found, after⟩
  · refine .inl ⟨by rw [after], ?_⟩
    rw [after, ticksOf_asked, silent]
    simp
  · rw [after, ticksOf_asked]
    by_cases own : asked = scope
    · subst own
      exact .inr (.inr ⟨state, rfl, found, rfl, by rw [if_pos rfl]; rfl⟩)
    · exact .inr (.inl ⟨state, Ne.symm own, rfl, by
        rw [if_neg own, List.append_nil]
        rfl⟩)

theorem reports_advance (chronicle : Chronicle W) (scope : ScopeId) :
    (chronicle.advance scope).reports =
      chronicle.reports ++ (Peer.recordOf (chronicle.peer.recordAdvance scope).1).map (·.report) := by
  have pumped : chronicle.pump.moments.filterMap Moment.tick? = chronicle.ticks := ticks_pump chronicle
  rw [reports, ticks, advance, ask, List.filterMap_append, pumped, List.map_append]
  refine congrArg _ ?_
  simp only [peer_pump, Peer.logAdvance, Peer.recordAdvance]
  cases chronicle.peer.pump.2.scopes.get? scope with
  | none => rfl
  | some state =>
    dsimp only
    split <;> rfl

theorem advanceEach_eq (scopes : List ScopeId) (chronicle : Chronicle W) :
    (chronicle.advanceEach scopes).peer = (chronicle.peer.recordEach scopes).2 ∧
      (chronicle.advanceEach scopes).reports =
        chronicle.reports ++ (chronicle.peer.recordEach scopes).1.map (·.report) := by
  induction scopes generalizing chronicle with
  | nil => exact ⟨rfl, (List.append_nil _).symm⟩
  | cons scope scopes ih =>
    obtain ⟨peer, reports⟩ := ih (chronicle.advance scope)
    rw [peer_advance, Peer.advance_eq_record] at peer reports
    rw [reports_advance] at reports
    rw [advanceEach, List.foldl_cons, ← advanceEach, peer, reports]
    simp only [Peer.recordEach]
    rcases chronicle.peer.recordAdvance scope with ⟨error | _ | record, after⟩ <;>
      simp [Peer.recordOf]

theorem runWithin_eq (scope : ScopeId) (tick : Tick) (steps : Nat) (chronicle : Chronicle W) :
    (runWithin scope tick steps chronicle).map (fun final => (final.reports, final.peer)) =
      (Peer.recordWithin scope tick steps chronicle.peer).map fun (_, records, final) =>
        (chronicle.reports ++ records.map (·.report), final) := by
  induction steps generalizing chronicle with
  | zero =>
    rw [runWithin, Peer.recordWithin]
    cases chronicle.peer.nextTick? scope with
    | none => simp
    | some next =>
      simp only [peer_pump]
      split
      · simp
      · split <;> simp [reports]
  | succ steps ih =>
    rw [runWithin, Peer.recordWithin]
    cases chronicle.peer.nextTick? scope with
    | none => simp
    | some next =>
      have reports := reports_advance chronicle scope
      have answer := Peer.advance_eq_record chronicle.peer scope
      dsimp only
      split
      · simp
      · rcases advanced : chronicle.peer.recordAdvance scope with ⟨error | _ | record, after⟩ <;>
          rw [advanced] at answer reports
        · simp [Except.map, answer, reports, Peer.recordOf]
        · simp [Except.map, answer, reports, Peer.recordOf]
        · simp [Except.map, ih, answer, reports, Peer.recordOf, Function.comp_def]

/-- Being on a chronicle changes nothing, and the chronicle has the reports of the ticks. -/
theorem turn_call (chronicle : Chronicle W) (call : PeerCall) :
    (chronicle.turn (.call call)).map (fun final => (final.reports, final.peer)) =
      (call.perform chronicle.peer).map fun (records, final) =>
        (chronicle.reports ++ records.map (·.report), final) := by
  cases call with
  | capture ambient capture => simp [turn, PeerCall.perform, aside, reports, ticks]
  | pump => simp [turn, PeerCall.perform, reports]
  | advance scope =>
    simp [turn, PeerCall.perform, reports_advance, Peer.advance_eq_record]
  | advanceAll =>
    have each := advanceEach_eq chronicle.pump.peer.scopes.keys chronicle.pump
    simp only [peer_pump] at each
    simp only [turn, PeerCall.perform, Option.map_some, advanceAll, peer_pump, each, Peer.recordAll]
    rw [reports, ticks_pump, ← reports]
  | runUntil scope tick =>
    have ran := runWithin_eq scope tick
      (tick.toNat + 1 - ((chronicle.peer.nextTick? scope).getD 0).toNat) chronicle
    simp only [turn, PeerCall.perform, runUntil, Peer.recordUntil, ran, Option.map_map]
    rfl

/-! ## What turns consist of -/

/-- What holds of a chronicle and is kept by every move. -/
structure Kept (keeps : Chronicle W → Prop) : Prop where
  aside {chronicle : Chronicle W} {peer : Peer W} : keeps chronicle →
    peer.OnSameGround chronicle.peer → keeps (chronicle.aside peer)
  take {chronicle : Chronicle W} (message : Inbound) : keeps chronicle → keeps (chronicle.take message)
  ask {chronicle : Chronicle W} (scope : ScopeId) : keeps chronicle →
    chronicle.peer.inbox.messages = [] → keeps (chronicle.ask scope)

namespace Kept

variable {keeps : Chronicle W → Prop} {chronicle final : Chronicle W}

theorem pump (kept : Kept keeps) (holds : keeps chronicle) : keeps chronicle.pump := by
  have emptied : keeps (chronicle.aside chronicle.peer.emptied) :=
    kept.aside holds ⟨rfl, rfl, rfl, rfl, rfl, rfl⟩
  rw [Chronicle.pump]
  generalize chronicle.aside chronicle.peer.emptied = other at emptied
  induction chronicle.peer.inbox.messages generalizing other with
  | nil => exact emptied
  | cons message messages ih => exact ih (other.take message) (kept.take message emptied)

theorem advance (kept : Kept keeps) (holds : keeps chronicle) (scope : ScopeId) :
    keeps (chronicle.advance scope) := by
  refine kept.ask scope (kept.pump holds) ?_
  rw [peer_pump, Peer.inbox_pump]

theorem advanceEach (kept : Kept keeps) (holds : keeps chronicle) (scopes : List ScopeId) :
    keeps (chronicle.advanceEach scopes) := by
  induction scopes generalizing chronicle with
  | nil => exact holds
  | cons scope scopes ih => exact ih (kept.advance holds scope)

theorem runWithin (kept : Kept keeps) (holds : keeps chronicle) {scope : ScopeId} {tick : Tick}
    {steps : Nat} (ran : Chronicle.runWithin scope tick steps chronicle = some final) : keeps final := by
  induction steps generalizing chronicle with
  | zero =>
    rw [Chronicle.runWithin] at ran
    split at ran
    · cases ran
      exact holds
    · split_ifs at ran
      · cases ran
        exact holds
      · cases ran
        exact kept.pump holds
  | succ steps ih =>
    rw [Chronicle.runWithin] at ran
    split at ran
    · cases ran
      exact holds
    · split at ran
      · cases ran
        exact holds
      · dsimp only at ran
        split at ran
        · exact ih (kept.advance holds scope) ran
        · cases ran
          exact kept.advance holds scope

/-- What every move keeps, every turn keeps. -/
theorem turn (kept : Kept keeps) (holds : keeps chronicle) {turn : PeerTurn}
    (ran : chronicle.turn turn = some final) : keeps final := by
  rcases turn with message | call
  · cases ran
    exact kept.aside holds ⟨rfl, rfl, rfl, rfl, rfl, rfl⟩
  · cases call with
    | capture ambient capture =>
      cases ran
      obtain ⟨sent, core⟩ := Peer.core_attempt chronicle.peer ambient capture
      exact kept.aside holds ⟨congrArg Core.config core, congrArg Core.table core,
        congrArg Core.world core, congrArg Core.scopes core, congrArg Core.tickLimit core,
        Peer.opinions_attempt chronicle.peer ambient capture⟩
    | pump =>
      cases ran
      exact kept.pump holds
    | advance scope =>
      cases ran
      exact kept.advance holds scope
    | advanceAll =>
      cases ran
      exact kept.advanceEach (kept.pump holds) _
    | runUntil scope tick => exact kept.runWithin holds ran

/-- What holds at first and is kept by every move holds in the end. -/
theorem run (kept : Kept keeps) (holds : keeps chronicle) {turns : List PeerTurn}
    (ran : chronicle.run turns = some final) : keeps final := by
  induction turns generalizing chronicle with
  | nil =>
    cases ran
    exact holds
  | cons turn turns ih =>
    obtain ⟨middle, first, rest⟩ := Option.bind_eq_some_iff.mp ran
    exact ih (kept.turn holds first) rest

end Kept

/-! ## What is sent -/

omit [World W] in
theorem ticks_asked (peer : Peer W) (moments : List Moment) (asked : ScopeId)
    (answer : Except PeerError (Option TickLog)) :
    (Chronicle.mk peer (moments ++ [.asked asked answer])).ticks =
      (Chronicle.mk peer moments).ticks ++ (TickLog.ofAnswer? answer).toList := by
  rw [ticks, List.filterMap_append]
  cases log : TickLog.ofAnswer? answer <;> simp [Moment.tick?, ticks, log]

omit [World W] in
theorem ticks_take (chronicle : Chronicle W) (message : Inbound) :
    (chronicle.take message).ticks = chronicle.ticks :=
  (foldl_take [message] chronicle).2

/-- A peer sends the opinions of its ticks, as far as they can be written. -/
theorem kept_sent (peer : Peer W) : Kept fun chronicle : Chronicle W =>
    (Outbound.opinions chronicle.peer.outbox).reverse = (Outbound.opinions peer.outbox).reverse ++
      Outbound.opinions ((TickLog.opinions chronicle.ticks).flatMap Peer.voice) where
  aside sent ground := (congrArg List.reverse ground.opinions).trans sent
  take {chronicle} message sent := by
    have outbox : (chronicle.take message).peer.outbox = chronicle.peer.outbox :=
      Peer.outbox_receive chronicle.peer message
    rw [outbox, ticks_take]
    exact sent
  ask {chronicle} asked sent idle := by
    rcases ask_cases idle asked with ⟨answer, silent, after⟩ | ⟨state, -, after⟩
    · rw [after, ticks_asked, silent, Option.toList_none, List.append_nil]
      exact sent
    · have outbox : (chronicle.peer.runTick asked state).2.outbox =
          ((chronicle.peer.opinionAfter? asked state).map Peer.voice).getD [] ++ chronicle.peer.outbox :=
        congrArg Core.outbox (Peer.core_runTick chronicle.peer asked state)
      rw [after, ticks_asked]
      dsimp only
      -- The outbox has its latest message first, the ticks their first one.
      rw [outbox, Outbound.opinions, List.filterMap_append, List.reverse_append, TickLog.opinions,
        List.filterMap_append, List.flatMap_append, Outbound.opinions, Outbound.opinions,
        List.filterMap_append, ← List.append_assoc]
      refine congrArg₂ _ sent ?_
      have log : (chronicle.peer.logTick asked state).opinion? =
        chronicle.peer.opinionAfter? asked state := rfl
      cases due : chronicle.peer.opinionAfter? asked state with
      | none => simp [TickLog.ofAnswer?, log, due]
      | some opinion =>
        rw [due] at log
        simp only [TickLog.ofAnswer?, log, Option.toList_some, List.filterMap_cons, List.filterMap_nil,
          List.flatMap_singleton, Option.map_some, Option.getD_some]
        unfold Peer.voice
        cases opinion.encode <;> rfl

/-- The opinions of the ticks of a scope are those on the scope. -/
theorem kept_opinionsOf (scope : ScopeId) : Kept fun chronicle : Chronicle W =>
    TickLog.opinions (chronicle.ticksOf scope) =
      (TickLog.opinions chronicle.ticks).filter (·.scope = scope) where
  aside same _ := same
  take {chronicle} message same := by
    rw [ticksOf_take, ticks_take]
    exact same
  ask {chronicle} asked same idle := by
    rcases ask_cases idle asked with ⟨answer, silent, after⟩ | ⟨state, -, after⟩
    · rw [after, ticksOf_asked, ticks_asked, silent, Option.toList_none, ite_self, List.append_nil,
        List.append_nil]
      exact same
    · rw [after, ticksOf_asked, ticks_asked]
      have on (opinion : DriftOpinion)
          (due : (chronicle.peer.logTick asked state).opinion? = some opinion) : opinion.scope = asked :=
        (DriftMonitor.endTick_eq_some due).1
      rw [TickLog.opinions, TickLog.opinions, List.filterMap_append, List.filterMap_append,
        List.filter_append]
      refine congrArg₂ _ same ?_
      cases due : (chronicle.peer.logTick asked state).opinion? with
      | none => split <;> simp [TickLog.ofAnswer?, due]
      | some opinion =>
        split
        next own =>
          subst own
          simp [TickLog.ofAnswer?, due, on opinion due]
        next other => simp [TickLog.ofAnswer?, due, on opinion due, other]

/-- Whatever a peer is asked to do, the opinions that it sends meanwhile are those that its ticks close
windows with, in order; those on a scope are from the ticks of the scope. -/
theorem run_sends {peer : Peer W} {turns : List PeerTurn} {final : Chronicle W}
    (ran : (Chronicle.mk peer []).run turns = some final) :
    (Outbound.opinions final.peer.outbox).reverse = (Outbound.opinions peer.outbox).reverse ++
        Outbound.opinions ((TickLog.opinions final.ticks).flatMap Peer.voice) ∧
      ∀ scope, TickLog.opinions (final.ticksOf scope) =
        (TickLog.opinions final.ticks).filter (·.scope = scope) :=
  ⟨(kept_sent peer).run (List.append_nil _).symm ran, fun scope => (kept_opinionsOf scope).run rfl ran⟩

end Chronicle

end Lockstep
