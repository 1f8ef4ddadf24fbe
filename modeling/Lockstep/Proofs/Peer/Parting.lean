import Lockstep.Proofs.Drift.Alongside
import Lockstep.Proofs.Peer.Chronicle
import Lockstep.Proofs.World.Lab

/-! # Where peers part

A peer lives through ticks of a scope, and each of them is sampled. Whatever happens in between, its
opinions on the windows of these ticks hold what they were sampled with (`Lives.watched`), and every
run of a peer is such a life (`Chronicle.kept_lives`). So an arbiter that two peers hand their opinions
to names somebody if their samples differ, and the tick that it gives is the first one in which they do
(`parting_is_pinpointed`).
-/

namespace Lockstep

/-- What a scope was sampled with, tick by tick. -/
def TickLog.states (logs : List TickLog) : List (List StreamState) := logs.map (·.samples)

namespace Peer

variable {W : Type}

/-- The tick that a scope is to simulate next, and what has been sampled since its last opinion. -/
def gauge? (peer : Peer W) (scope : ScopeId) : Option (Tick × DriftMonitor) :=
  (peer.scopes.get? scope).map fun state => (state.next, state.drift)

/-- A peer lives through ticks of a scope; anything else may happen to it in between that leaves the
clock and the samples of the scope alone. -/
inductive Lives [World W] (scope : ScopeId) (peer : Peer W) : List TickLog → Peer W → Prop
  | rest : Lives scope peer [] peer
  | aside {logs : List TickLog} {now other : Peer W} : Lives scope peer logs now →
      other.gauge? scope = now.gauge? scope → Lives scope peer logs other
  | tick {logs : List TickLog} {now : Peer W} {state : ScopeState} : Lives scope peer logs now →
      now.scopes.get? scope = some state →
      Lives scope peer (logs ++ [now.logTick scope state]) (now.runTick scope state).2

variable [World W]

theorem gauge?_runTick_of_ne (peer : Peer W) {scope other : ScopeId} (state : ScopeState)
    (ne : other ≠ scope) : (peer.runTick scope state).2.gauge? other = peer.gauge? other := by
  rw [gauge?, gauge?, scopes_runTick, SortedMap.get?_insert_of_ne _ _ ne]

theorem gauge?_runTick_self (peer : Peer W) (scope : ScopeId) (state : ScopeState) :
    (peer.runTick scope state).2.gauge? scope =
      some (state.next.next, (state.drift.watch scope state.next (peer.simulate scope state).samples).2) := by
  rw [gauge?, scopes_runTick, SortedMap.get?_insert_self]
  rfl

omit [World W] in
theorem gauge?_receive (peer : Peer W) (message : Inbound) (scope : ScopeId) :
    (peer.receive message).gauge? scope = peer.gauge? scope :=
  map_receive (fun _ _ => rfl) peer message scope

theorem samples_simulate_ne_nil (peer : Peer W) (scope : ScopeId) (state : ScopeState) :
    (peer.simulate scope state).samples ≠ [] :=
  List.append_ne_nil_of_right_ne_nil _ (List.cons_ne_nil _ _)

/-- The opinions of a life hold all that its ticks were sampled with, window by window. -/
theorem Lives.watched {scope : ScopeId} {peer final : Peer W} {logs : List TickLog} {start : Tick}
    {fresh : DriftMonitor} (lives : peer.Lives scope logs final)
    (started : peer.gauge? scope = some (start, fresh))
    (anew : fresh.Watched scope start.toNat [] [] fresh 0)
    (inside : start.toNat + logs.length < UInt32.size)
    (room : fresh.HasRoomFor (TickLog.states logs)) :
    ∃ next monitor closed, final.gauge? scope = some (next, monitor) ∧
      next.toNat = start.toNat + logs.length ∧
      fresh.Watched scope start.toNat (TickLog.states logs) (TickLog.opinions logs) monitor closed := by
  induction lives with
  | rest => exact ⟨start, fresh, 0, started, rfl, anew⟩
  | aside _ same ih =>
    rw [same]
    exact ih inside room
  | @tick logs now state lives found ih =>
    rw [List.length_append, List.length_singleton] at inside
    rw [TickLog.states, List.map_append] at room
    obtain ⟨next, monitor, closed, gauge, reached, watched⟩ := ih (by omega) room.of_append
    rw [gauge?, found, Option.map_some, Option.some.injEq, Prod.mk.injEq] at gauge
    obtain ⟨rfl, rfl⟩ := gauge
    have stamp : state.next = UInt32.ofNat (start.toNat + (TickLog.states logs).length) := by
      rw [← UInt32.toNat_inj, UInt32.toNat_ofNat_of_lt' (by rw [TickLog.states, List.length_map]; omega),
        TickLog.states, List.length_map, reached]
    obtain ⟨closed', watched⟩ := watched.watch (samples_simulate_ne_nil now scope state) room
    rw [← stamp] at watched
    refine ⟨_, _, closed', gauge?_runTick_self now scope state, ?_, ?_⟩
    · rw [List.length_append, List.length_singleton, Tick.toNat_next (by omega), reached]
      omega
    · rw [TickLog.states, TickLog.opinions, List.map_append, List.filterMap_append]
      have latest : [now.logTick scope state].filterMap (·.opinion?) =
          (state.drift.watch scope state.next (now.simulate scope state).samples).1.toList := rfl
      rw [latest]
      exact watched

end Peer

/-- Whatever a peer is asked to do, it lives through the ticks of a scope. -/
theorem Chronicle.kept_lives {W : Type} [World W] (peer : Peer W) (scope : ScopeId) :
    Kept fun chronicle => peer.Lives scope (chronicle.ticksOf scope) chronicle.peer where
  aside lives ground := lives.aside
    (congrArg (fun scopes => (scopes.get? scope).map fun state => (state.next, state.drift)) ground.scopes)
  take message lives := by
    rw [ticksOf_take]
    exact lives.aside (Peer.gauge?_receive _ message scope)
  ask asked lives idle := by
    rcases ask_cases_of idle asked scope with ⟨stays, same⟩ | ⟨state, ne, after, same⟩ |
      ⟨state, rfl, found, after, more⟩
    · rw [stays, same]
      exact lives
    · rw [after, same]
      exact lives.aside (Peer.gauge?_runTick_of_ne _ state ne)
    · rw [after, more]
      exact lives.tick found

/-- Two peers simulate a scope from the same tick on, with the same settings for drift and streams of one
seed, and there is room for the samples of every window. However they hand their opinions to one
arbiter, as long as neither gets the arbiter's history ahead of the other: while their samples agree in
all ticks that both have closed, nobody is named; otherwise somebody is, and the tick given is the first
one in which the samples differ, be it that one of the peers ran more commands in it. -/
theorem parting_is_pinpointed {W : Type} [World W] {config : SyncConfig} {scope : ScopeId} {start : Tick}
    {seed : UInt64} {peers finals : Bool → Peer W} {logs : Bool → List TickLog}
    (lives : ∀ side, (peers side).Lives scope (logs side) (finals side))
    (started : ∀ side, (peers side).gauge? scope =
      some (start, .new config.driftSampleCapacity config.driftExchangeInterval))
    (inside : ∀ side, start.toNat + (logs side).length < UInt32.size)
    (early : ∀ side, ∀ log ∈ logs side, ∀ state ∈ log.samples, state.IsEarly seed)
    (room : ∀ side, (DriftMonitor.new config.driftSampleCapacity config.driftExchangeInterval).HasRoomFor
      (TickLog.states (logs side)))
    {counts : Bool → Nat} {submissions : List (Bool × DriftOpinion)}
    (exchange : Exchange (max config.driftHistory 1) (fun side => TickLog.opinions (logs side)) counts
      submissions) (ids : Bool → PeerId) :
    let answers := ((DriftArbiter.new config.driftHistory).weigh
      (submissions.map fun submission => (ids submission.1, submission.2))).1
    let closed (index : Nat) := ∀ side, index < counts side * (max config.driftExchangeInterval 1).toNat
    let sampled (side : Bool) (index : Nat) := (TickLog.states (logs side))[index]?
    ((∀ index, closed index → sampled true index = sampled false index) →
      ∀ answer ∈ answers, answer = none) ∧
    ∀ index, closed index → (∀ earlier < index, sampled true earlier = sampled false earlier) →
      sampled true index ≠ sampled false index →
      ∃ side, answers.findSome? id = some ⟨scope, UInt32.ofNat (start.toNat + index), ids side⟩ := by
  have fresh := DriftMonitor.watched_new config.driftSampleCapacity config.driftExchangeInterval scope
    start.toNat
  have alongside : Alongside scope seed start.toNat (max config.driftExchangeInterval 1).toNat
      (fun side => TickLog.states (logs side)) (fun side => TickLog.opinions (logs side)) := by
    refine ⟨Nat.lt_of_le_of_lt (Nat.zero_le _) fresh.inside, fun side => ?_, fun side states member => ?_,
      fun side => ?_⟩
    · rw [TickLog.states, List.length_map]
      exact inside side
    · obtain ⟨log, known, rfl⟩ := List.mem_map.mp member
      exact early side log known
    · obtain ⟨_, _, closed, -, -, watched⟩ :=
        (lives side).watched (started side) fresh (inside side) (room side)
      exact ⟨closed, watched.count ▸ Nat.le_add_right _ _, watched.opinions⟩
  exact alongside.names_first exchange ids rfl rfl

/-- Opinions are exchanged every other tick, and the arbiter keeps one reference. -/
def briefConfig : SyncConfig := { driftExchangeInterval := 2, driftHistory := 1 }

def briefPeer : Peer Lab := (Peer.create briefConfig levelTable {}).toOption.get (by decide +kernel)

/-- Of two peers that simulate two ticks, one is reached by a command for the second tick. -/
def briefTurns : Bool → List PeerTurn
  | true => [.deliver (.command { levelCommand with tick := 1 }), .call (.runUntil .global 1)]
  | false => [.call (.runUntil .global 1)]

def briefChronicle (side : Bool) : Chronicle Lab :=
  ((Chronicle.mk briefPeer []).run (briefTurns side)).get (by cases side <;> decide +kernel)

def briefOpinion (side : Bool) : DriftOpinion :=
  ((TickLog.opinions ((briefChronicle side).ticksOf .global))[0]?).get (by cases side <;> decide +kernel)

def briefIds : Bool → PeerId
  | true => 7
  | false => 9

theorem brief_room (side : Bool) :
    (DriftMonitor.new briefConfig.driftSampleCapacity briefConfig.driftExchangeInterval).HasRoomFor
      (TickLog.states ((briefChronicle side).ticksOf .global)) := by
  intro place whole
  have interval : (DriftMonitor.new briefConfig.driftSampleCapacity
      briefConfig.driftExchangeInterval).interval.toNat = 2 := by decide +kernel
  have count : (TickLog.states ((briefChronicle side).ticksOf .global)).length = 2 := by
    cases side <;> decide +kernel
  rw [interval, count] at whole
  obtain rfl : place = 0 := by omega
  cases side <;> decide +kernel

theorem brief_exchange : Exchange (max briefConfig.driftHistory 1)
    (fun side => TickLog.opinions ((briefChronicle side).ticksOf .global))
    (Function.update (Function.update (fun _ => 0) true 1) false 1)
    [(true, briefOpinion true), (false, briefOpinion false)] := by
  have first (side : Bool) : (TickLog.opinions ((briefChronicle side).ticksOf .global))[0]? =
      some (briefOpinion side) := (Option.some_get _).symm
  exact (Exchange.start.submit true (by decide) (first true)).submit false (by decide) (first false)

/-- The command does not touch the stream, but the tick in which one peer runs it is sampled once more. -/
theorem brief_peers_part :
    (∀ side, briefPeer.Lives .global ((briefChronicle side).ticksOf .global) (briefChronicle side).peer) ∧
      briefPeer.gauge? .global =
        some (0, .new briefConfig.driftSampleCapacity briefConfig.driftExchangeInterval) ∧
      (∀ side, ∀ log ∈ (briefChronicle side).ticksOf .global, ∀ state ∈ log.samples,
        state.IsEarly RandomStream.seedFactor) ∧
      ∃ side, ((DriftArbiter.new briefConfig.driftHistory).weigh
        [(7, briefOpinion true), (9, briefOpinion false)]).1.findSome? id =
          some ⟨.global, 1, briefIds side⟩ := by
  have start : briefPeer.Lives .global ((Chronicle.mk briefPeer []).ticksOf .global) briefPeer := .rest
  have lives (side : Bool) :
      briefPeer.Lives .global ((briefChronicle side).ticksOf .global) (briefChronicle side).peer :=
    (Chronicle.kept_lives briefPeer .global).run start (Option.some_get _).symm
  have started : briefPeer.gauge? .global =
      some (0, .new briefConfig.driftSampleCapacity briefConfig.driftExchangeInterval) := rfl
  have inside (side : Bool) : (0 : Tick).toNat + ((briefChronicle side).ticksOf .global).length <
      UInt32.size := by
    cases side <;> decide +kernel
  have early (side : Bool) : ∀ log ∈ (briefChronicle side).ticksOf .global, ∀ state ∈ log.samples,
      state.IsEarly RandomStream.seedFactor := by
    cases side <;> decide +kernel
  obtain ⟨-, named⟩ := parting_is_pinpointed lives (fun _ => started) inside early brief_room
    brief_exchange briefIds
  refine ⟨lives, started, early, named 1 ?_ ?_ ?_⟩
  · intro side
    cases side <;> decide +kernel
  · decide +kernel
  · decide +kernel

end Lockstep
