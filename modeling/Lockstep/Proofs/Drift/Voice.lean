import Lockstep.Proofs.Peer.Parting
import Mathlib.Data.List.DropRight

/-! # Opinions on their way

Whatever has happened to a scope, its monitor holds the latest samples since opinions were exchanged
last, as many as it keeps (`Lives.gathered`). So it is known at each tick whether an opinion is due and
what it holds, and what becomes of it on its way is a matter of two bounds of its wire form: the count of
its samples has two bytes, and the number of its map has no sign (`opinion_arrives_iff`).
-/

namespace Lockstep

/-! ## What reaches a reader -/

/-- A map number that has no wire form of its own is clamped. -/
theorem ScopeId.toWire_of_far {scope : ScopeId} (far : ¬scope.isRepresentable = true) :
    scope.toWire = (ScopeId.map maxWireMap).toWire := by
  cases scope with
  | global => exact absurd rfl far
  | map id =>
    have large : ¬id ≤ maxWireMap := fun small => far (decide_eq_true small)
    have least : min id maxWireMap = maxWireMap := if_neg large
    rw [toWire, least]
    rfl

namespace DriftOpinion

/-- An opinion can be written unless it holds too many samples. -/
theorem exists_encode_iff (opinion : DriftOpinion) :
    (∃ bytes, opinion.encode = .ok bytes) ↔ opinion.samples.length ≤ 65535 := by
  constructor
  · rintro ⟨bytes, written⟩
    obtain ⟨count, counted, -⟩ := bind_eq_ok.mp written
    exact (guard_eq_ok.mp counted).1
  · intro few
    exact ⟨_, bind_eq_ok.mpr ⟨_, guard_eq_ok.mpr ⟨few, rfl⟩, rfl⟩⟩

/-- An opinion as its readers know it: a scope without a wire form of its own is taken for the last one
that has one. -/
def heard (opinion : DriftOpinion) : DriftOpinion :=
  { opinion with
    scope := if opinion.scope.isRepresentable then opinion.scope else .map ScopeId.maxWireMap }

theorem heard_eq_iff (opinion : DriftOpinion) :
    opinion.heard = opinion ↔ opinion.scope.isRepresentable = true := by
  constructor
  · intro same
    by_contra far
    have moved : opinion.scope = .map ScopeId.maxWireMap := by
      rw [heard, if_neg far] at same
      exact (congrArg scope same).symm
    rw [moved] at far
    exact far (by decide)
  · intro stands
    rw [heard, if_pos stands]

theorem decode_encode_heard {opinion : DriftOpinion} {bytes : Bytes}
    (written : opinion.encode = .ok bytes) : decode bytes = .ok opinion.heard := by
  have representable : opinion.heard.scope.isRepresentable = true := by
    unfold heard
    dsimp only
    split
    next exact => exact exact
    next => decide
  have wire : opinion.heard.scope.toWire = opinion.scope.toWire := by
    unfold heard
    dsimp only
    split
    next => rfl
    next far => exact (ScopeId.toWire_of_far far).symm
  have same : opinion.heard.encode = opinion.encode := by
    simp only [encode, wire]
    rfl
  exact decode_encode representable (same.trans written)

end DriftOpinion

/-! ## What a monitor holds -/

namespace DriftMonitor

variable {monitor : DriftMonitor} {all : List DriftSample}

theorem samples_foldl_record_eq_rtake (positive : 0 < monitor.capacity)
    (kept : monitor.samples = all.rtake monitor.capacity) (tick : Tick) (states : List StreamState) :
    (states.foldl (·.record tick ·) monitor).samples =
      (all ++ states.map fun state => (⟨tick, state.fold⟩ : DriftSample)).rtake monitor.capacity := by
  induction states generalizing monitor all with
  | nil => simpa using kept
  | cons state states ih =>
    have one := samples_record_eq_rtake positive kept tick state
    have rest := ih (by exact positive) one
    rw [List.foldl_cons, rest, List.append_assoc]
    rfl

end DriftMonitor

/-! ## What a scope has sampled -/

/-- The samples of a tick. -/
def TickLog.recorded (log : TickLog) : List DriftSample :=
  log.samples.map fun state => ⟨log.report.tick, state.fold⟩

/-- The samples of the ticks since opinions were exchanged last, if they are exchanged once in so many
ticks. -/
def TickLog.pending (interval : Nat) (logs : List TickLog) : List DriftSample :=
  (logs.drop (logs.length / interval * interval)).flatMap recorded

theorem TickLog.pending_append_of_not_dvd {interval : Nat} {logs : List TickLog} {log : TickLog}
    (early : ¬interval ∣ logs.length + 1) :
    pending interval (logs ++ [log]) = pending interval logs ++ log.recorded := by
  have same : (logs.length + 1) / interval = logs.length / interval := Nat.succ_div_of_not_dvd early
  have within : logs.length / interval * interval ≤ logs.length := Nat.div_mul_le_self _ _
  rw [pending, pending, List.length_append, List.length_singleton, same,
    List.drop_append_of_le_length within, List.flatMap_append, List.flatMap_singleton]

theorem TickLog.pending_of_dvd {interval : Nat} {logs : List TickLog}
    (due : interval ∣ logs.length) : pending interval logs = [] := by
  rw [pending, Nat.div_mul_cancel due, List.drop_length, List.flatMap_nil]

/-- A monitor that has followed these ticks of a scope. -/
structure DriftMonitor.Gathered (fresh : DriftMonitor) (logs : List TickLog) (monitor : DriftMonitor) :
    Prop where
  capacity : monitor.capacity = fresh.capacity
  interval : monitor.interval = fresh.interval
  elapsed : monitor.elapsed.toNat = logs.length % fresh.interval.toNat
  samples : monitor.samples = (TickLog.pending fresh.interval.toNat logs).rtake fresh.capacity

namespace DriftMonitor

theorem gathered_new (capacity : Nat) (interval : UInt32) :
    (new capacity interval).Gathered [] (new capacity interval) where
  capacity := rfl
  interval := rfl
  elapsed := by simp [new]
  samples := by simp [TickLog.pending, new, samples]

/-- A tick hands over what has been gathered exactly at the end of an interval. -/
theorem Gathered.watch {fresh monitor : DriftMonitor} {logs : List TickLog} {log : TickLog}
    (gathered : fresh.Gathered logs monitor) (positive : 0 < fresh.capacity)
    (regular : 0 < fresh.interval.toNat) (scope : ScopeId) (sampled : log.samples ≠ []) :
    (monitor.watch scope log.report.tick log.samples).1 =
        (if fresh.interval.toNat ∣ logs.length + 1 then
          some ⟨scope, log.report.tick,
            (TickLog.pending fresh.interval.toNat logs ++ log.recorded).rtake fresh.capacity⟩
        else none) ∧
      fresh.Gathered (logs ++ [log]) (monitor.watch scope log.report.tick log.samples).2 := by
  have kept := samples_foldl_record_eq_rtake (gathered.capacity ▸ positive)
    (gathered.capacity ▸ gathered.samples) log.report.tick log.samples
  obtain ⟨window, same⟩ := foldl_record monitor log.report.tick log.samples
  change _ = (_ ++ log.recorded).rtake _ at kept
  rw [gathered.capacity, same] at kept
  rw [DriftMonitor.watch, same]
  generalize full : ({ monitor with window } : DriftMonitor) = after at kept ⊢
  have capacity : after.capacity = fresh.capacity := full ▸ gathered.capacity
  have interval : after.interval = fresh.interval := full ▸ gathered.interval
  have counted : after.elapsed.toNat = logs.length % after.interval.toNat := by
    rw [interval]
    exact full ▸ gathered.elapsed
  rw [← interval] at regular kept ⊢
  have turn := due_iff regular counted
  by_cases due : after.interval.toNat ∣ logs.length + 1
  · have filled : after.samples ≠ [] := by
      have some : 0 < log.recorded.length := by
        rw [TickLog.recorded, List.length_map]
        exact List.length_pos_iff.mpr sampled
      rw [kept, List.rtake, Ne, List.drop_eq_nil_iff, List.length_append]
      omega
    have whole : after.interval.toNat ∣ (logs ++ [log]).length := by
      rw [List.length_append, List.length_singleton]
      exact due
    rw [endTick_of_ne_nil (turn.mpr due) filled, if_pos due, kept]
    refine ⟨rfl, capacity, interval, ?_, ?_⟩
    · rw [← interval, Nat.mod_eq_zero_of_dvd whole]
      rfl
    · rw [← interval, TickLog.pending_of_dvd whole, List.rtake_nil]
      rfl
  · have early : after.elapsed + 1 < after.interval := not_not.mp (mt turn.mp due)
    have inside : logs.length % after.interval.toNat + 1 < after.interval.toNat :=
      not_not.mp (mt (dvd_succ_iff regular).mpr due)
    rw [endTick_of_early early, if_neg due]
    refine ⟨rfl, capacity, interval, ?_, ?_⟩
    · rw [List.length_append, List.length_singleton, ← interval, ← Nat.mod_add_mod,
        Nat.mod_eq_of_lt inside, ← counted]
      exact toNat_elapsed_succ (counted ▸ Nat.mod_lt _ regular)
    · rw [← interval, TickLog.pending_append_of_not_dvd due]
      exact kept

end DriftMonitor

/-- The settings for drift that are accepted are those that a monitor takes as they are. -/
theorem SyncConfig.monitor_of_accepted {config : SyncConfig} (accepted : config.validate = .ok ()) :
    0 < config.driftSampleCapacity ∧ 0 < config.driftExchangeInterval.toNat ∧
      DriftMonitor.new config.driftSampleCapacity config.driftExchangeInterval =
        { capacity := config.driftSampleCapacity, interval := config.driftExchangeInterval } := by
  unfold validate at accepted
  split at accepted
  next => cases accepted
  next capacity =>
    split at accepted
    next => cases accepted
    next interval =>
      have positive : 0 < config.driftSampleCapacity := Nat.pos_of_ne_zero capacity
      have regular : 0 < config.driftExchangeInterval.toNat :=
        Nat.pos_of_ne_zero fun none => interval (UInt32.toNat_inj.mp none)
      have least : max config.driftExchangeInterval 1 = config.driftExchangeInterval := by
        rw [← UInt32.toNat_inj, Tick.toNat_max]
        exact Nat.max_eq_left regular
      refine ⟨positive, regular, ?_⟩
      rw [DriftMonitor.new, least, Nat.max_eq_left positive]

namespace Peer

variable {W : Type} [World W] {scope : ScopeId} {start : Tick} {fresh : DriftMonitor}
  {logs : List TickLog} {peer now : Peer W}

/-- What a scope has sampled in its life since opinions were exchanged last is in its monitor. -/
theorem Lives.gathered (lives : peer.Lives scope logs now)
    (started : peer.gauge? scope = some (start, fresh)) (anew : fresh.Gathered [] fresh)
    (positive : 0 < fresh.capacity) (regular : 0 < fresh.interval.toNat) :
    ∃ next monitor, now.gauge? scope = some (next, monitor) ∧ fresh.Gathered logs monitor := by
  induction lives with
  | rest => exact ⟨start, fresh, started, anew⟩
  | aside _ same ih =>
    rw [same]
    exact ih
  | @tick logs now state lives found ih =>
    obtain ⟨next, monitor, gauge, gathered⟩ := ih
    rw [gauge?, found, Option.map_some, Option.some.injEq, Prod.mk.injEq] at gauge
    obtain ⟨-, rfl⟩ := gauge
    have sampled : (now.logTick scope state).samples ≠ [] := samples_simulate_ne_nil now scope state
    exact ⟨_, _, gauge?_runTick_self now scope state,
      (gathered.watch positive regular scope sampled).2⟩

/-- Whether an opinion is due at the next tick, and what it holds, in terms of what the scope has lived
through. -/
theorem Lives.opinionAfter? (lives : peer.Lives scope logs now)
    (started : peer.gauge? scope = some (start, fresh)) (anew : fresh.Gathered [] fresh)
    (positive : 0 < fresh.capacity) (regular : 0 < fresh.interval.toNat) {state : ScopeState}
    (found : now.scopes.get? scope = some state) :
    now.opinionAfter? scope state =
      if fresh.interval.toNat ∣ logs.length + 1 then
        some ⟨scope, state.next, (TickLog.pending fresh.interval.toNat logs ++
          (now.logTick scope state).recorded).rtake fresh.capacity⟩
      else none := by
  obtain ⟨next, monitor, gauge, gathered⟩ := lives.gathered started anew positive regular
  rw [gauge?, found, Option.map_some, Option.some.injEq, Prod.mk.injEq] at gauge
  obtain ⟨-, rfl⟩ := gauge
  have sampled : (now.logTick scope state).samples ≠ [] := samples_simulate_ne_nil now scope state
  exact (gathered.watch positive regular scope sampled).1

omit [World W] in
/-- The arbiter of a peer weighs what the peer publishes, whether or not it can be sent. -/
theorem arbiter_publish (peer : Peer W) (opinion : DriftOpinion) :
    (peer.publish opinion).arbiter = (peer.arbiter.submit peer.id opinion).2 := by
  have submits (peer : Peer W) :
      (peer.submit peer.id opinion).arbiter = (peer.arbiter.submit peer.id opinion).2 := by
    unfold submit
    dsimp only
    split
    next divergence _ =>
      unfold report
      split <;> rfl
    next => rfl
  unfold publish
  cases opinion.encode with
  | ok bytes => exact submits (peer.send (.opinion bytes))
  | error error => exact submits peer

omit [World W] in
theorem outbox_publish (peer : Peer W) (opinion : DriftOpinion) :
    (peer.publish opinion).outbox = voice opinion ++ peer.outbox :=
  congrArg Core.outbox (core_publish peer opinion)

/-- An opinion with few enough samples becomes one message, from which its readers take it as they hear
it. -/
theorem voice_of_few {opinion : DriftOpinion} (few : opinion.samples.length ≤ 65535) :
    ∃ bytes, voice opinion = [.opinion bytes] ∧ DriftOpinion.decode bytes = .ok opinion.heard := by
  obtain ⟨bytes, written⟩ := opinion.exists_encode_iff.mpr few
  exact ⟨bytes, by rw [voice, written], DriftOpinion.decode_encode_heard written⟩

theorem voice_of_many {opinion : DriftOpinion} (many : 65535 < opinion.samples.length) :
    voice opinion = [] := by
  cases written : opinion.encode with
  | ok bytes => exact absurd (opinion.exists_encode_iff.mp ⟨bytes, written⟩) (Nat.not_le.mpr many)
  | error error => rw [voice, written]

/-- An opinion can be read from what is sent of it exactly if there are not too many samples and the scope
has a wire form of its own. -/
theorem voice_arrives_iff (opinion : DriftOpinion) (earlier : List Outbound) :
    (∃ bytes, voice opinion ++ earlier = .opinion bytes :: earlier ∧
      DriftOpinion.decode bytes = .ok opinion) ↔
    opinion.samples.length ≤ 65535 ∧ opinion.scope.isRepresentable = true := by
  constructor
  · rintro ⟨bytes, arrived, read⟩
    have few : opinion.samples.length ≤ 65535 := by
      by_contra many
      rw [voice_of_many (Nat.not_le.mp many)] at arrived
      exact List.cons_ne_self _ _ arrived.symm
    obtain ⟨written, spoken, heard⟩ := voice_of_few few
    rw [spoken, List.singleton_append, List.cons.injEq, Outbound.opinion.injEq] at arrived
    obtain ⟨rfl, -⟩ := arrived
    rw [heard, Except.ok.injEq] at read
    exact ⟨few, opinion.heard_eq_iff.mp read⟩
  · rintro ⟨few, stands⟩
    obtain ⟨bytes, spoken, heard⟩ := voice_of_few few
    rw [opinion.heard_eq_iff.mpr stands] at heard
    exact ⟨bytes, by rw [spoken, List.singleton_append], heard⟩

/-- Under settings that are accepted, a live tick sends and weighs nothing unless opinions are due, and
they are due at the last tick of each interval since the scope was added. Then the peer's own arbiter
weighs an opinion on the latest samples since the last exchange, as many as are kept; and the transport
is handed one message, from which this very opinion is read, exactly if there are at most 65535 samples
and the scope has a wire form of its own. With more samples nothing is sent, and of a scope beyond those
the readers take the opinion for one on the last map number that can be written. -/
theorem opinion_arrives_iff {config : SyncConfig} (accepted : config.validate = .ok ())
    (started : peer.gauge? scope =
      some (start, .new config.driftSampleCapacity config.driftExchangeInterval))
    (lives : peer.Lives scope logs now) {state : ScopeState}
    (found : now.scopes.get? scope = some state) :
    let interval := config.driftExchangeInterval.toNat
    let opinion : DriftOpinion := ⟨scope, state.next, (TickLog.pending interval logs ++
      (now.logTick scope state).recorded).rtake config.driftSampleCapacity⟩
    let after := (now.runTick scope state).2
    (¬interval ∣ logs.length + 1 → after.outbox = now.outbox ∧ after.arbiter = now.arbiter) ∧
    (interval ∣ logs.length + 1 →
      after.arbiter = (now.arbiter.submit now.id opinion).2 ∧
      ((∃ bytes, after.outbox = .opinion bytes :: now.outbox ∧
          DriftOpinion.decode bytes = .ok opinion) ↔
        opinion.samples.length ≤ 65535 ∧ scope.isRepresentable = true) ∧
      (65535 < opinion.samples.length → after.outbox = now.outbox) ∧
      (opinion.samples.length ≤ 65535 → scope.isRepresentable = false →
        ∃ bytes, after.outbox = .opinion bytes :: now.outbox ∧
          DriftOpinion.decode bytes = .ok { opinion with scope := .map ScopeId.maxWireMap })) := by
  obtain ⟨positive, regular, fresh⟩ := config.monitor_of_accepted accepted
  have anew := DriftMonitor.gathered_new config.driftSampleCapacity config.driftExchangeInterval
  rw [fresh] at started anew
  have answer := lives.opinionAfter? started anew positive regular found
  intro interval opinion after
  have ran : after = (now.runTick scope state).2 := rfl
  rw [runTick_eq, answer] at ran
  refine ⟨fun early => ?_, fun due => ?_⟩
  · rw [if_neg early] at ran
    rw [ran]
    exact ⟨rfl, rfl⟩
  · rw [if_pos due] at ran
    have sent : after.outbox = voice opinion ++ now.outbox := by
      rw [ran]
      exact outbox_publish (now.settle scope state) opinion
    refine ⟨by rw [ran]; exact arbiter_publish (now.settle scope state) opinion, ?_, ?_, ?_⟩
    · rw [sent]
      exact voice_arrives_iff opinion now.outbox
    · intro many
      rw [sent, voice_of_many many, List.nil_append]
    · intro few far
      obtain ⟨bytes, spoken, heard⟩ := voice_of_few few
      refine ⟨bytes, by rw [sent, spoken, List.singleton_append], ?_⟩
      rw [heard, DriftOpinion.heard, if_neg (by rw [far]; exact Bool.false_ne_true)]

end Peer

/-- The peer after the first of two ticks between exchanges. -/
def briefMorning : Chronicle Lab :=
  ((Chronicle.mk briefPeer []).run [.call (.advance .global)]).get (by decide +kernel)

def briefMorningState : ScopeState := (briefMorning.peer.scopes.get? .global).get (by decide +kernel)

/-- The second of two ticks sends what both were sampled with. -/
theorem brief_opinion_arrives :
    briefConfig.validate = .ok () ∧
      briefPeer.gauge? .global =
        some (0, .new briefConfig.driftSampleCapacity briefConfig.driftExchangeInterval) ∧
      briefPeer.Lives .global (briefMorning.ticksOf .global) briefMorning.peer ∧
      briefMorning.peer.scopes.get? .global = some briefMorningState ∧
      ∃ bytes opinion, (briefMorning.peer.runTick .global briefMorningState).2.outbox =
          .opinion bytes :: briefMorning.peer.outbox ∧
        DriftOpinion.decode bytes = .ok opinion ∧ opinion.samples.length = 2 := by
  have start : briefPeer.Lives .global ((Chronicle.mk briefPeer []).ticksOf .global) briefPeer := .rest
  have lives : briefPeer.Lives .global (briefMorning.ticksOf .global) briefMorning.peer :=
    (Chronicle.kept_lives briefPeer .global).run start (Option.some_get _).symm
  have found : briefMorning.peer.scopes.get? .global = some briefMorningState :=
    (Option.some_get _).symm
  have accepted : briefConfig.validate = .ok () := rfl
  have arrives := Peer.opinion_arrives_iff accepted rfl lives found
  obtain ⟨-, sent, -⟩ := arrives.2 (by decide +kernel)
  obtain ⟨bytes, outbox, read⟩ := sent.mpr ⟨by decide +kernel, rfl⟩
  exact ⟨accepted, rfl, lives, found, bytes, _, outbox, read, by decide +kernel⟩

/-- A map beyond those that have a number on the wire. -/
def farScope : ScopeId := .map 2147483648

/-- Opinions are exchanged after every tick. -/
def farConfig : SyncConfig := { driftExchangeInterval := 1 }

def farPeer : Peer Lab :=
  ((Peer.create farConfig levelTable {}).toOption.bind fun peer =>
    (peer.addScope farScope 0).toOption).get (by decide +kernel)

def farState : ScopeState := (farPeer.scopes.get? farScope).get (by decide +kernel)

def farOpinion : DriftOpinion := (farPeer.opinionAfter? farScope farState).get (by decide +kernel)

def farBytes : Bytes := farOpinion.encode.toOption.get (by decide +kernel)

/-- The peer weighs an opinion on its far map, and the transport is handed one on another map. -/
theorem far_opinion_is_taken_for_another :
    farConfig.validate = .ok () ∧
      farPeer.gauge? farScope =
        some (0, .new farConfig.driftSampleCapacity farConfig.driftExchangeInterval) ∧
      farPeer.scopes.get? farScope = some farState ∧
      ∃ opinion bytes, farPeer.opinionAfter? farScope farState = some opinion ∧
        opinion.scope = farScope ∧
        (farPeer.runTick farScope farState).2.outbox = [.opinion bytes] ∧
        DriftOpinion.decode bytes = .ok { opinion with scope := .map 2147483647 } ∧
        DriftOpinion.decode bytes ≠ .ok opinion := by
  have due : farPeer.opinionAfter? farScope farState = some farOpinion := (Option.some_get _).symm
  have sent : (farPeer.runTick farScope farState).2.outbox = [.opinion farBytes] := by decide +kernel
  have read : DriftOpinion.decode farBytes = .ok { farOpinion with scope := .map 2147483647 } := by
    decide +kernel
  have own : farOpinion.scope = farScope := by decide +kernel
  refine ⟨rfl, rfl, (Option.some_get _).symm, farOpinion, farBytes, due, own, sent, read, ?_⟩
  rw [read]
  intro same
  have moved : ScopeId.map 2147483647 = farOpinion.scope :=
    congrArg DriftOpinion.scope (Except.ok.inj same)
  rw [own] at moved
  exact absurd moved (by decide)

end Lockstep
