import Lockstep.Peer.Replay
import Lockstep.Proofs.Peer.Chronicle
import Lockstep.Proofs.Peer.Stage
import Lockstep.Proofs.World.Lab
import Lockstep.Proofs.World.Parts

/-! # Scopes do not interfere

What concerns a scope are the commands that are taken in for it, the tick limits, and the requests to
simulate its next tick. In a world of parts a scope behaves as it would if nothing else ever happened
to its peer (`Chronicle.kept_mirrors`), so it comes to the same however what concerns it is interleaved
with what concerns other scopes (`scopes_do_not_interfere`).
-/

namespace Lockstep

/-- What concerns a scope. -/
inductive Stimulus where
  | command (command : Command)
  | tickLimit (limit : Tick)
  /-- The scope is asked to simulate its next tick. -/
  | advance
  deriving DecidableEq

/-- What a scope notices of what happens to its peer. -/
def Moment.stimulus? (scope : ScopeId) : Moment → Option Stimulus
  | took (.command command) _ => if command.scope = scope then some (.command command) else none
  | took (.tickLimit limit) _ => some (.tickLimit limit)
  | took (.opinion _ _) _ | took (.diverged _) _ => none
  | asked other _ => if other = scope then some .advance else none

/-- What has concerned a scope, in order. -/
def Chronicle.timeline {W : Type} (chronicle : Chronicle W) (scope : ScopeId) : List Stimulus :=
  chronicle.moments.filterMap (Moment.stimulus? scope)

variable {W : Type}

namespace Peer

/-- Two peers are the same to a scope. -/
structure SameTo (partition : Partition W) (scope : ScopeId) (first second : Peer W) : Prop where
  config : first.config = second.config
  table : first.table = second.table
  tickLimit : first.tickLimit = second.tickLimit
  state : first.scopes.get? scope = second.scopes.get? scope
  world : partition.Alike scope first.world second.world

namespace SameTo

variable {partition : Partition W} {scope : ScopeId} {first second third : Peer W}

theorem trans (before : SameTo partition scope first second) (after : SameTo partition scope second third) :
    SameTo partition scope first third where
  config := before.config.trans after.config
  table := before.table.trans after.table
  tickLimit := before.tickLimit.trans after.tickLimit
  state := before.state.trans after.state
  world := ⟨before.world.part.trans after.world.part, before.world.rest.trans after.world.rest⟩

theorem of_core (same : first.core = second.core) : SameTo partition scope first second where
  config := congrArg Core.config same
  table := congrArg Core.table same
  tickLimit := congrArg Core.tickLimit same
  state := congrArg (fun core => core.scopes.get? scope) same
  world := ⟨congrArg (fun core => partition.part scope core.world) same,
    congrArg (fun core => partition.rest core.world) same⟩

/-! ### Messages -/

/-- A message that does not concern a scope leaves the peer the same to it. -/
theorem receive_other (peer : Peer W) {message : Inbound} {next? : Option Tick}
    (other : Moment.stimulus? scope (.took message next?) = none) :
    SameTo partition scope (peer.receive message) peer := by
  cases message with
  | command command =>
    have ne : scope ≠ command.scope := by
      rintro rfl
      simp [Moment.stimulus?] at other
    exact ⟨rfl, rfl, rfl, SortedMap.get?_modify_of_ne _ _ ne, ⟨rfl, rfl⟩⟩
  | tickLimit limit => cases other
  | opinion author bytes => exact .of_core (core_receive_opinion peer author bytes)
  | diverged divergence => exact .of_core (core_receive_diverged peer divergence)

/-- A message leaves peers the same to a scope that are so before. -/
theorem receive (same : SameTo partition scope first second) (message : Inbound) :
    SameTo partition scope (first.receive message) (second.receive message) := by
  cases message with
  | command command =>
    refine ⟨same.config, same.table, same.tickLimit, ?_, same.world⟩
    by_cases own : scope = command.scope
    · subst own
      simp only [Peer.receive, enqueue, SortedMap.get?_modify_self, same.state]
    · simp only [Peer.receive, enqueue, SortedMap.get?_modify_of_ne _ _ own, same.state]
  | tickLimit limit =>
    refine ⟨same.config, same.table, ?_, same.state, same.world⟩
    simp only [Peer.receive, raiseTickLimit, same.tickLimit]
  | opinion author bytes =>
    have back : SameTo partition scope second (second.receive (.opinion author bytes)) :=
      .of_core (core_receive_opinion second author bytes).symm
    exact (SameTo.of_core (core_receive_opinion first author bytes)).trans (same.trans back)
  | diverged divergence =>
    have back : SameTo partition scope second (second.receive (.diverged divergence)) :=
      .of_core (core_receive_diverged second divergence).symm
    exact (SameTo.of_core (core_receive_diverged first divergence)).trans (same.trans back)

/-! ### Ticks -/

variable [World W]

/-- The tick of one scope leaves the peer the same to the others. -/
theorem runTick_other (separates : partition.Separates first.table) (state : ScopeState) {other : ScopeId}
    (ne : scope ≠ other) : SameTo partition scope (first.runTick other state).2 first := by
  have core := core_runTick first other state
  have ran := separates.runCommands_onlyAt
    { scope := other, tick := state.next, debugMode := first.config.debugMode }
    (state.queue.due state.next) { world := first.world, stream := state.stream }
  have changed : partition.OnlyAt other first.world (first.simulate other state).world :=
    ran.trans (separates.tickOnly _ _)
  have world : (first.runTick other state).2.world = (first.simulate other state).world :=
    congrArg Core.world core
  refine ⟨congrArg Core.config core, congrArg Core.table core, congrArg Core.tickLimit core, ?_, ?_⟩
  · rw [scopes_runTick, SortedMap.get?_insert_of_ne _ _ ne]
  · rw [world]
    exact changed.alike ne

/-- A tick comes to the same in peers that are the same to its scope. -/
theorem simulate (separates : partition.Separates first.table) (same : SameTo partition scope first second)
    (state : ScopeState) :
    first.outcomes scope state = second.outcomes scope state ∧
      second.simulate scope state =
        { first.simulate scope state with world := (second.simulate scope state).world } ∧
      partition.Alike scope (first.simulate scope state).world (second.simulate scope state).world := by
  have start : partition.SameFor scope (HostState.mk first.world state.stream {})
      (HostState.mk second.world state.stream {}) := ⟨same.world, rfl, rfl⟩
  obtain ⟨results, host⟩ := separates.runCommands
    { scope, tick := state.next, debugMode := first.config.debugMode } (state.queue.due state.next) start
  have ticked := separates.tick host
  rw [outcomes, outcomes, Peer.simulate, Peer.simulate, ← same.config, ← same.table]
  simp only [results, ticked.stream, true_and]
  exact ticked.world

theorem logTick (separates : partition.Separates first.table) (same : SameTo partition scope first second)
    (state : ScopeState) : first.logTick scope state = second.logTick scope state := by
  obtain ⟨outcomes, simulated, -⟩ := same.simulate separates state
  rw [Peer.logTick, Peer.logTick, opinionAfter?, opinionAfter?, outcomes, simulated]

theorem runTick (separates : partition.Separates first.table) (same : SameTo partition scope first second)
    (state : ScopeState) :
    SameTo partition scope (first.runTick scope state).2 (second.runTick scope state).2 := by
  obtain ⟨-, simulated, worlds⟩ := same.simulate separates state
  have core := core_runTick first scope state
  have core' := core_runTick second scope state
  have world : (first.runTick scope state).2.world = (first.simulate scope state).world :=
    congrArg Core.world core
  have world' : (second.runTick scope state).2.world = (second.simulate scope state).world :=
    congrArg Core.world core'
  refine ⟨?_, ?_, ?_, ?_, ?_⟩
  · exact (congrArg Core.config core).trans (same.config.trans (congrArg Core.config core').symm)
  · exact (congrArg Core.table core).trans (same.table.trans (congrArg Core.table core').symm)
  · exact (congrArg Core.tickLimit core).trans (same.tickLimit.trans (congrArg Core.tickLimit core').symm)
  · rw [scopes_runTick, scopes_runTick, SortedMap.get?_insert_self, SortedMap.get?_insert_self, stateAfter,
      stateAfter, simulated]
  · rw [world, world']
    exact worlds

theorem logAdvance (separates : partition.Separates first.table)
    (same : SameTo partition scope first second) : first.logAdvance scope = second.logAdvance scope := by
  rw [Peer.logAdvance, Peer.logAdvance, same.state, same.tickLimit]
  split
  next => rfl
  next state _ => rw [same.logTick separates state]

/-- Peers with nothing to take in that are the same to a scope advance it alike. -/
theorem advance (separates : partition.Separates first.table) (same : SameTo partition scope first second)
    (idle : first.inbox.messages = []) (idle' : second.inbox.messages = []) :
    SameTo partition scope (first.advance scope).2 (second.advance scope).2 := by
  simp only [Peer.advance, pump_of_none idle, pump_of_none idle', same.state, same.tickLimit]
  cases second.scopes.get? scope with
  | none => exact same
  | some state =>
    dsimp only
    split
    · exact same
    · exact same.runTick separates state

end SameTo

end Peer

namespace Chronicle

/-! ## Alone -/

variable {partition : Partition W} {scope : ScopeId} {first second : Chronicle W}

/-- Two chronicles are the same to a scope, and nothing is left to take in on the second. -/
structure Mirrors (partition : Partition W) (scope : ScopeId) (first second : Chronicle W) : Prop where
  peer : Peer.SameTo partition scope first.peer second.peer
  answers : first.answers scope = second.answers scope
  idle : second.peer.inbox.messages = []

variable [World W]

/-- Let something happen that concerns a scope. -/
def respond (scope : ScopeId) (chronicle : Chronicle W) : Stimulus → Chronicle W
  | .command command => chronicle.take (.command command)
  | .tickLimit limit => chronicle.take (.tickLimit limit)
  | .advance => chronicle.ask scope

/-- What becomes of a peer to which nothing happens but what concerns a scope. -/
def alone (peer : Peer W) (scope : ScopeId) (timeline : List Stimulus) : Chronicle W :=
  timeline.foldl (respond scope) ⟨peer.emptied, []⟩

theorem alone_concat (peer : Peer W) (scope : ScopeId) (timeline : List Stimulus) (stimulus : Stimulus) :
    alone peer scope (timeline ++ [stimulus]) = (alone peer scope timeline).respond scope stimulus := by
  rw [alone, List.foldl_append]
  rfl

/-- A message that concerns a scope is taken in. -/
theorem respond_of_took {message : Inbound} {next? : Option Tick} {stimulus : Stimulus}
    (concerns : Moment.stimulus? scope (.took message next?) = some stimulus) (chronicle : Chronicle W) :
    chronicle.respond scope stimulus = chronicle.take message := by
  cases message with
  | command command =>
    obtain ⟨-, same⟩ := Option.ite_none_right_eq_some.mp concerns
    cases same
    rfl
  | tickLimit limit =>
    cases concerns
    rfl
  | opinion author bytes => cases concerns
  | diverged divergence => cases concerns

omit [World W] in
theorem timeline_take (chronicle : Chronicle W) (message : Inbound) (scope : ScopeId) :
    (chronicle.take message).timeline scope = chronicle.timeline scope ++
      (Moment.stimulus? scope (.took message (chronicle.peer.nextFor? message))).toList := by
  rw [timeline, take, List.filterMap_append]
  cases concerns : Moment.stimulus? scope (.took message (chronicle.peer.nextFor? message)) <;>
    simp [timeline, concerns]

theorem timeline_ask (chronicle : Chronicle W) (asked scope : ScopeId) :
    (chronicle.ask asked).timeline scope =
      chronicle.timeline scope ++ if asked = scope then [.advance] else [] := by
  by_cases own : asked = scope <;> simp [timeline, ask, Moment.stimulus?, own]

omit [World W] in
/-- A message that does not concern a scope changes nothing for it. -/
theorem Mirrors.take_other (mirrors : Mirrors partition scope first second) {message : Inbound}
    (other : Moment.stimulus? scope (.took message (first.peer.nextFor? message)) = none) :
    Mirrors partition scope (first.take message) second :=
  ⟨(Peer.SameTo.receive_other first.peer other).trans mirrors.peer,
    (answers_take first message scope).trans mirrors.answers, mirrors.idle⟩

omit [World W] in
theorem Mirrors.take (mirrors : Mirrors partition scope first second) (message : Inbound) :
    Mirrors partition scope (first.take message) (second.take message) where
  peer := mirrors.peer.receive message
  answers := by rw [answers_take, answers_take, mirrors.answers]
  idle := (congrArg Inbox.messages (Peer.inbox_receive second.peer message)).trans mirrors.idle

theorem Mirrors.ask (mirrors : Mirrors partition scope first second)
    (separates : partition.Separates first.peer.table) (idle : first.peer.inbox.messages = []) :
    Mirrors partition scope (first.ask scope) (second.ask scope) where
  peer := mirrors.peer.advance separates idle mirrors.idle
  answers := by
    rw [Chronicle.ask, Chronicle.ask, answers_asked, answers_asked, mirrors.peer.logAdvance separates]
    exact congrArg (· ++ _) mirrors.answers
  idle := Peer.idle_advance second.peer scope

/-- A request to another scope changes nothing for a scope. -/
theorem Mirrors.ask_other (mirrors : Mirrors partition scope first second)
    (separates : partition.Separates first.peer.table) (idle : first.peer.inbox.messages = [])
    {asked : ScopeId} (ne : asked ≠ scope) : Mirrors partition scope (first.ask asked) second := by
  have answers : (first.ask asked).answers scope = second.answers scope := by
    rw [Chronicle.ask, answers_asked, if_neg ne, List.append_nil]
    exact mirrors.answers
  refine ⟨?_, answers, mirrors.idle⟩
  rcases ask_cases idle asked with ⟨answer, -, after⟩ | ⟨state, -, after⟩
  · rw [after]
    exact mirrors.peer
  · rw [after]
    exact (Peer.SameTo.runTick_other separates state ne.symm).trans mirrors.peer

theorem kept_table (table : HandlerTable W) : Kept fun chronicle => chronicle.peer.table = table where
  aside same ground := ground.table.trans same
  take message same := (congrArg Stage.table (Peer.stage_receive _ message)).trans same
  ask {chronicle} asked same idle := by
    rcases ask_cases idle asked with ⟨answer, -, after⟩ | ⟨state, -, after⟩
    · rw [after]
      exact same
    · rw [after]
      exact (congrArg Core.table (Peer.core_runTick chronicle.peer asked state)).trans same

/-- In a world of parts, a scope behaves as if nothing happened to its peer but what concerns it. -/
theorem kept_mirrors {peer : Peer W} (separates : partition.Separates peer.table) (scope : ScopeId) :
    Kept fun chronicle => Mirrors partition scope chronicle (alone peer scope (chronicle.timeline scope)) ∧
      chronicle.peer.table = peer.table where
  aside {chronicle other} mirrors ground := by
    have same : Peer.SameTo partition scope other chronicle.peer :=
      ⟨ground.config, ground.table, ground.tickLimit, congrArg (·.get? scope) ground.scopes,
        ground.world ▸ ⟨rfl, rfl⟩⟩
    obtain ⟨mirrors, table⟩ := mirrors
    exact ⟨⟨same.trans mirrors.peer, mirrors.answers, mirrors.idle⟩, ground.table.trans table⟩
  take {chronicle} message mirrors := by
    obtain ⟨mirrors, table⟩ := mirrors
    refine ⟨?_, (kept_table peer.table).take message table⟩
    rw [timeline_take]
    cases concerns : Moment.stimulus? scope (.took message (chronicle.peer.nextFor? message)) with
    | none =>
      rw [Option.toList_none, List.append_nil]
      exact mirrors.take_other concerns
    | some stimulus =>
      rw [Option.toList_some, alone_concat, respond_of_took concerns]
      exact mirrors.take message
  ask {chronicle} asked mirrors idle := by
    obtain ⟨mirrors, table⟩ := mirrors
    refine ⟨?_, (kept_table peer.table).ask asked table idle⟩
    rw [← table] at separates
    rw [timeline_ask]
    split
    next own =>
      rw [alone_concat, own]
      exact mirrors.ask separates idle
    next ne =>
      rw [List.append_nil]
      exact mirrors.ask_other separates idle ne

end Chronicle

/-- In a world of parts, scopes do not interfere: a scope that meets with the same in two runs of a peer,
however it is interleaved with what other scopes meet with, gives the same reports on the same ticks and
closes windows with the same opinions, its stream stands at the same place before the same tick, its
journal is the same, and so is its part of the world. -/
theorem scopes_do_not_interfere [World W] {partition : Partition W} {peer : Peer W}
    (separates : partition.Separates peer.table) {turns turns' : List PeerTurn}
    {first second : Chronicle W} (ran : (Chronicle.mk peer []).run turns = some first)
    (ran' : (Chronicle.mk peer []).run turns' = some second) {scope : ScopeId}
    (same : first.timeline scope = second.timeline scope) :
    first.answers scope = second.answers scope ∧
      (first.ticksOf scope).map (·.report) = (second.ticksOf scope).map (·.report) ∧
      TickLog.opinions (first.ticksOf scope) = TickLog.opinions (second.ticksOf scope) ∧
      first.peer.streamState? scope = second.peer.streamState? scope ∧
      first.peer.nextTick? scope = second.peer.nextTick? scope ∧
      (first.peer.takeJournal scope).1 = (second.peer.takeJournal scope).1 ∧
      partition.part scope first.peer.world = partition.part scope second.peer.world := by
  -- Neither run says anything about the other: both are compared with the run of the scope alone, which
  -- depends on the timeline only.
  have start : Chronicle.Mirrors partition scope (Chronicle.mk peer [])
      (Chronicle.alone peer scope ((Chronicle.mk peer []).timeline scope)) :=
    ⟨⟨rfl, rfl, rfl, rfl, ⟨rfl, rfl⟩⟩, rfl, rfl⟩
  obtain ⟨⟨peers, answers, -⟩, -⟩ := (Chronicle.kept_mirrors separates scope).run ⟨start, rfl⟩ ran
  obtain ⟨⟨peers', answers', -⟩, -⟩ :=
    (Chronicle.kept_mirrors separates scope).run ⟨start, rfl⟩ ran'
  rw [← same] at peers' answers'
  have answers : first.answers scope = second.answers scope := answers.trans answers'.symm
  have ticks : first.ticksOf scope = second.ticksOf scope := congrArg _ answers
  have state : first.peer.scopes.get? scope = second.peer.scopes.get? scope :=
    peers.state.trans peers'.state.symm
  refine ⟨answers, by rw [ticks], by rw [ticks], ?_, ?_, ?_,
    peers.world.part.trans peers'.world.part.symm⟩
  · rw [Peer.streamState?, Peer.streamState?, state]
  · rw [Peer.nextTick?, Peer.nextTick?, state]
  · rw [Peer.takeJournal, Peer.takeJournal, state]

/-- Two scopes of a laboratory, the second of which is recorded. -/
def twinPeer : Peer Lab :=
  ((levelPeer.addScope (.map 1) 0).toOption.bind fun peer =>
    (peer.startJournal (.map 1)).toOption).get (by decide +kernel)

/-- Sets the level of the first target on the map. -/
def mapCommand : Command := { levelCommand with scope := .map 1, payload := [1, 0, 0, 0, 9, 0, 0, 0] }

/-- The scopes take turns, or the map comes first. -/
def twinTurns : Bool → List PeerTurn
  | true => [.deliver (.command levelCommand), .deliver (.command mapCommand), .call .advanceAll,
      .call .advanceAll, .call .advanceAll]
  | false => [.deliver (.command mapCommand), .call (.runUntil (.map 1) 2),
      .deliver (.command levelCommand), .call (.runUntil .global 2)]

def twinChronicle (side : Bool) : Chronicle Lab :=
  ((Chronicle.mk twinPeer []).run (twinTurns side)).get (by cases side <;> decide +kernel)

theorem twinTable_isDescribed : Lab.IsDescribed twinPeer.table := by
  intro id handler known
  have table : twinPeer.table.handlers = [.field (level.handler 0)] := by rfl
  rw [HandlerTable.get?, table, List.getElem?_singleton] at known
  split at known
  next => exact ⟨.field level, 0, (Option.some.inj known).symm⟩
  next => cases known

/-- The map does in three ticks what it does when it takes turns with the global scope. -/
theorem twins_do_not_interfere :
    ((twinChronicle true).ticks.map (·.report.scope) =
        [.global, .map 1, .global, .map 1, .global, .map 1] ∧
      (twinChronicle false).ticks.map (·.report.scope) =
        [.map 1, .map 1, .map 1, .global, .global, .global]) ∧
      (twinChronicle true).timeline (.map 1) = (twinChronicle false).timeline (.map 1) ∧
      ((twinChronicle true).ticksOf (.map 1)).map (·.report) =
        ((twinChronicle false).ticksOf (.map 1)).map (·.report) ∧
      ((twinChronicle true).peer.takeJournal (.map 1)).1 =
        ((twinChronicle false).peer.takeJournal (.map 1)).1 ∧
      Lab.parts.part (.map 1) (twinChronicle true).peer.world =
        Lab.parts.part (.map 1) (twinChronicle false).peer.world := by
  have same : (twinChronicle true).timeline (.map 1) = (twinChronicle false).timeline (.map 1) := by
    decide +kernel
  have ran (side : Bool) : (Chronicle.mk twinPeer []).run (twinTurns side) = some (twinChronicle side) :=
    (Option.some_get _).symm
  obtain ⟨-, reports, -, -, -, journal, part⟩ :=
    scopes_do_not_interfere (Lab.separates twinTable_isDescribed) (ran true) (ran false) same
  have orders : (twinChronicle true).ticks.map (·.report.scope) =
        [.global, .map 1, .global, .map 1, .global, .map 1] ∧
      (twinChronicle false).ticks.map (·.report.scope) =
        [.map 1, .map 1, .map 1, .global, .global, .global] := by
    decide +kernel
  exact ⟨orders, same, reports, journal, part⟩

end Lockstep
