import Lockstep.Peer.Basic

/-! # Simulating ticks

A tick runs the commands that are due, in order, and then lets the scope do what it does by itself. A
live tick is sampled, recorded if a journal is open, and at times followed by an opinion; a replayed
tick leaves no such traces.
-/

namespace Lockstep

/-- The message of a breakdown. -/
def Breakdown.text (breakdown : Breakdown) : String := breakdown.message.getD "non-string panic payload"

/-- Run one command; a breakdown of the host fails the command and nothing else. -/
def runCommand {W : Type} [World W] (table : HandlerTable W) (context : CallContext) (command : Command)
    (state : HostState W) : CommandOutcome × HostState W :=
  match table.apply context command.handler command.payload state with
  | .ok applied state => (.ok applied, state)
  | .error (.failed error) state => (.error error, state)
  | .error (.brokeDown breakdown) state => (.error (.brokeDown (table.nameOf command.handler) breakdown.text), state)

/-- Run commands one after another. Each outcome comes with the state of the stream after it. -/
def runCommands {W : Type} [World W] (table : HandlerTable W) (context : CallContext) :
    List Command → HostState W → List (CommandOutcome × StreamState) × HostState W
  | [], state => ([], state)
  | command :: commands, state =>
    let (outcome, state) := runCommand table context command state
    let (outcomes, final) := runCommands table context commands state
    ((outcome, state.stream.state) :: outcomes, final)

namespace Peer

variable {W : Type} [World W]

/-- What a tick does to a scope and to the world: the report, the states of the stream after each
command and after the tick, the commands that ran, and what is left. -/
structure Simulated (W : Type) where
  report : TickReport
  samples : List StreamState
  commands : List Command
  /-- The scope at its next tick, without traces of this one. -/
  state : ScopeState
  world : W

/-- Simulate the next tick of a scope. -/
def simulate (peer : Peer W) (scope : ScopeId) (state : ScopeState) : Simulated W :=
  let tick := state.next
  let context := { scope, tick, debugMode := peer.config.debugMode }
  let commands := state.queue.due tick
  let (results, host) := runCommands peer.table context commands { world := peer.world, stream := state.stream }
  let host := World.tickScope context host
  { report := .ofOutcomes scope tick (CommandQueue.countStale tick commands) (results.map (·.1))
    samples := results.map (·.2) ++ [host.stream.state]
    commands
    state := { state with next := tick.next, stream := host.stream, queue := state.queue.later tick }
    world := host.world }

/-- Send an opinion, if it can be written, and weigh it like those of the other peers. -/
def publish (peer : Peer W) (opinion : DriftOpinion) : Peer W :=
  let peer := match opinion.encode with
    | .ok bytes => peer.send (.opinion bytes)
    | .error _ => peer
  peer.submit peer.id opinion

/-- Simulate the next tick of a scope live. -/
def runTick (peer : Peer W) (scope : ScopeId) (state : ScopeState) : TickReport × Peer W :=
  let tick := state.next
  let done := peer.simulate scope state
  let drift := done.samples.foldl (·.record tick ·) state.drift
  let frame : JournalFrame := { tick, commands := done.commands, state := done.state.stream.state }
  let (opinion?, drift) := drift.endTick scope tick
  let state := { done.state with drift, journal := state.journal.map (·.record frame) }
  let peer := { peer with world := done.world, scopes := peer.scopes.insert scope state }
  (done.report, match opinion? with
    | some opinion => peer.publish opinion
    | none => peer)

/-- Take in messages, and simulate the next tick of a scope unless the tick limit holds it back. -/
def advance (peer : Peer W) (scope : ScopeId) : Except PeerError (Option TickReport) × Peer W :=
  let (_, peer) := peer.pump
  match peer.scopes.get? scope with
  | none => (.error (.unknownScope scope), peer)
  | some state =>
    if peer.tickLimit.any (· < state.next) then (.ok none, peer)
    else
      let (report, peer) := peer.runTick scope state
      (.ok (some report), peer)

/-- Advance scopes one after another; the answer lists the ticks simulated. -/
def advanceEach (peer : Peer W) : List ScopeId → List TickReport × Peer W
  | [] => ([], peer)
  | scope :: scopes =>
    let (result, peer) := peer.advance scope
    let (reports, peer) := peer.advanceEach scopes
    match result with
    | .ok (some report) => (report :: reports, peer)
    | _ => (reports, peer)

/-- Advance every scope by a tick, as far as the tick limit allows. -/
def advanceAll (peer : Peer W) : List TickReport × Peer W :=
  let (_, peer) := peer.pump
  peer.advanceEach peer.scopes.keys

/-- Advance a scope while its next tick is not later than `tick`, for at most so many ticks. The reports
come in front of those given, the latest first. Nothing is returned if the ticks do not suffice. -/
def runWithin (scope : ScopeId) (tick : Tick) :
    Nat → Peer W → List TickReport → Option (Except PeerError (List TickReport) × Peer W)
  | steps, peer, reports =>
    match peer.nextTick? scope with
    | none => some (.error (.unknownScope scope), peer)
    | some next =>
      if tick < next then some (.ok reports.reverse, peer)
      else match steps with
        | 0 =>
          if peer.pump.2.tickLimit.any (· < next) then some (.ok reports.reverse, peer.pump.2) else none
        | steps + 1 =>
          match peer.advance scope with
          | (.error error, peer) => some (.error error, peer)
          | (.ok none, peer) => some (.ok reports.reverse, peer)
          | (.ok (some report), peer) => runWithin scope tick steps peer (report :: reports)

/-- Advance a scope until its next tick is later than `tick` or the tick limit holds it back. Ticks are
counted up to the last word, which is its own successor: a run up to that one never ends unless it is
held back, and has no answer. -/
def runUntil (peer : Peer W) (scope : ScopeId) (tick : Tick) :
    Option (Except PeerError (List TickReport) × Peer W) :=
  runWithin scope tick (tick.toNat + 1 - ((peer.nextTick? scope).getD 0).toNat) peer []

/-- Advance every scope until none can be advanced, for at most so many rounds. The reports come in front
of those given, the latest first. Nothing is returned if the rounds do not suffice. -/
def catchUpWithin : Nat → Peer W → List TickReport → Option (List TickReport × Peer W)
  | 0, _, _ => none
  | rounds + 1, peer, reports =>
    match peer.advanceAll with
    | ([], peer) => some (reports.reverse, peer)
    | (more, peer) => catchUpWithin rounds peer (more.reverse ++ reports)

/-- How many ticks a scope may run under a tick limit. -/
def ticksUpTo (limit : Tick) (state : ScopeState) : Nat := limit.toNat + 1 - state.next.toNat

/-- Advance every scope up to the tick limit. Without a limit, or with the last word as the limit, a peer
never arrives, and there is no answer. -/
def catchUp (peer : Peer W) : Option (List TickReport × Peer W) :=
  let (_, peer) := peer.pump
  match peer.tickLimit with
  | none => none
  | some limit => catchUpWithin (peer.scopes.values.foldr (ticksUpTo limit · + ·) 1) peer []

end Peer

end Lockstep
