import Lockstep.Proofs.Peer.Foresight
import Lockstep.Proofs.World.Lab
import Mathlib.Data.List.Iterate

/-! # Ticks in order

Whatever a peer is asked to do, the ticks that a scope reports are its start tick and those that follow
it, one after another, none of them beyond the largest tick limit that has come, and the limit that a
peer goes by never falls (`Progress.goes_forward`). The last tick is its own successor, so it is the one
tick that a scope can simulate twice (`Progress.last_tick_runs_again`), and a run up to any other comes
to an end: the scope is past the tick, or the limit holds it back.
-/

namespace Lockstep

/-! ## Counting ticks -/

/-- The last tick, which is its own successor. -/
def Tick.last : Tick := 0xffffffff

theorem Tick.toNat_last : Tick.last.toNat = UInt32.size - 1 := rfl

/-- Whatever is not beyond a tick that is not the last has one after it. -/
theorem Tick.succ_lt_size {tick later : Tick} (early : later ≠ .last) (below : tick ≤ later) :
    tick.toNat + 1 < UInt32.size := by
  have bound : later.toNat < UInt32.size := later.toNat_lt
  have ne : later.toNat ≠ UInt32.size - 1 := fun same => early (UInt32.toNat_inj.mp same)
  have order : tick.toNat ≤ later.toNat := UInt32.le_iff_toNat_le.mp below
  omega

theorem Tick.toNat_iterate_next (start : Tick) (count : Nat) :
    (Tick.next^[count] start).toNat = min (start.toNat + count) Tick.last.toNat := by
  have bound : start.toNat < UInt32.size := start.toNat_lt
  have one : (1 : UInt32).toNat = 1 := rfl
  rw [Tick.toNat_last]
  induction count with
  | zero =>
    rw [Function.iterate_zero_apply]
    omega
  | succ count ih =>
    rw [Function.iterate_succ_apply', Tick.next, Tick.toNat_offset, ih]
    omega

/-- Ticks in their order ascend, but the last one may follow itself. -/
theorem Tick.pairwise_iterate_next (start : Tick) (count : Nat) :
    (List.iterate Tick.next start count).Pairwise fun earlier later =>
      earlier < later ∨ earlier = .last ∧ later = .last := by
  refine List.pairwise_iff_getElem.mpr fun i j small _ before => ?_
  rw [List.getElem_iterate, List.getElem_iterate, UInt32.lt_iff_toNat_lt, ← UInt32.toNat_inj,
    ← UInt32.toNat_inj, Tick.toNat_iterate_next, Tick.toNat_iterate_next]
  omega

/-- The ticks of a scope among those reported. -/
def ticksIn (scope : ScopeId) (reports : List TickReport) : List Tick :=
  (reports.filter (·.scope = scope)).map (·.tick)

section

variable {scope : ScopeId} {report : TickReport} {reports others : List TickReport}

theorem ticksIn_cons_self (own : report.scope = scope) :
    ticksIn scope (report :: reports) = report.tick :: ticksIn scope reports := by
  rw [ticksIn, List.filter_cons_of_pos (by simpa using own)]
  rfl

theorem ticksIn_cons_of_ne (ne : report.scope ≠ scope) :
    ticksIn scope (report :: reports) = ticksIn scope reports := by
  rw [ticksIn, List.filter_cons_of_neg (by simpa using ne)]
  rfl

theorem ticksIn_append :
    ticksIn scope (reports ++ others) = ticksIn scope reports ++ ticksIn scope others := by
  rw [ticksIn, List.filter_append, List.map_append]
  rfl

end

/-- A scope has come from one tick to another over the ticks between them; one that is not there has
come over none. -/
def Counts (from? to? : Option Tick) (ticks : List Tick) : Prop :=
  ∃ count, to? = from?.map (Tick.next^[count] ·) ∧
    ticks = from?.elim [] (List.iterate Tick.next · count)

namespace Counts

variable {from? middle? to? : Option Tick} {ticks others : List Tick}

theorem refl (at? : Option Tick) : Counts at? at? [] := by
  refine ⟨0, Option.map_id'.symm, ?_⟩
  cases at? with
  | none => rfl
  | some tick => rfl

theorem trans (first : Counts from? middle? ticks) (second : Counts middle? to? others) :
    Counts from? to? (ticks ++ others) := by
  obtain ⟨count, rfl, rfl⟩ := first
  obtain ⟨more, rfl, rfl⟩ := second
  refine ⟨count + more, ?_, ?_⟩
  · rw [Option.map_map]
    refine congrArg (Option.map · _) (funext fun start => ?_)
    rw [Nat.add_comm, Function.iterate_add_apply]
    rfl
  · cases from? with
    | none => rfl
    | some start => exact (List.iterate_add _ _ _ _).symm

end Counts

/-! ## Raising limits -/

/-- A limit raised to a tick. -/
def raised (limit? : Option Tick) (tick : Tick) : Option Tick :=
  some ((limit?.map (max · tick)).getD tick)

/-- The largest of several limits. -/
def highest (limits : List Tick) : Option Tick := limits.foldl raised none

/-- What a message raises the limit to. -/
def Inbound.limit? : Inbound → Option Tick
  | .tickLimit limit => some limit
  | .command _ | .opinion _ _ | .diverged _ => none

theorem raised_raised (limit? : Option Tick) (first second : Tick) :
    raised (raised limit? first) second = raised (raised limit? second) first := by
  refine congrArg some (UInt32.toNat_inj.mp ?_)
  cases limit? with
  | none =>
    change (max first second).toNat = (max second first).toNat
    rw [Tick.toNat_max, Tick.toNat_max, Nat.max_comm]
  | some limit =>
    change (max (max limit first) second).toNat = (max (max limit second) first).toNat
    rw [Tick.toNat_max, Tick.toNat_max, Tick.toNat_max, Tick.toNat_max, Nat.max_right_comm]

theorem foldl_raised_raised (limits : List Tick) (limit? : Option Tick) (tick : Tick) :
    limits.foldl raised (raised limit? tick) = raised (limits.foldl raised limit?) tick := by
  induction limits generalizing limit? with
  | nil => rfl
  | cons limit limits ih => rw [List.foldl_cons, List.foldl_cons, raised_raised, ih]

/-- A limit is not lowered by others. -/
theorem le_raised {limit? : Option Tick} {limit : Tick} (given : limit? = some limit)
    (limits : List Tick) : ∃ higher, limits.foldl raised limit? = some higher ∧ limit ≤ higher := by
  induction limits generalizing limit? limit with
  | nil => exact ⟨limit, given, UInt32.le_refl limit⟩
  | cons tick limits ih =>
    rw [given]
    have first : raised (some limit) tick = some (max limit tick) := rfl
    obtain ⟨higher, largest, below⟩ := ih first
    exact ⟨higher, largest, UInt32.le_trans (Tick.le_max_left limit tick) below⟩

theorem mem_of_foldl_raised {limit? : Option Tick} {limits : List Tick} {limit : Tick}
    (largest : limits.foldl raised limit? = some limit) : limit? = some limit ∨ limit ∈ limits := by
  induction limits generalizing limit? with
  | nil => exact .inl largest
  | cons tick limits ih =>
    rcases ih largest with here | later
    · cases limit? with
      | none => exact .inr (List.mem_cons.mpr (.inl (Option.some.inj here).symm))
      | some given =>
        have chosen : max given tick = limit := Option.some.inj here
        by_cases below : given ≤ tick
        · exact .inr (List.mem_cons.mpr (.inl (chosen.symm.trans (if_pos below))))
        · exact .inl (congrArg some ((if_neg below).symm.trans chosen))
    · exact .inr (List.mem_cons_of_mem tick later)

/-- The largest of several limits is one of them. -/
theorem highest_mem {limits : List Tick} (some_ : limits ≠ []) :
    ∃ limit ∈ limits, highest limits = some limit := by
  cases limits with
  | nil => exact absurd rfl some_
  | cons tick limits =>
    have first : raised none tick = some tick := rfl
    obtain ⟨limit, largest, -⟩ := le_raised first limits
    have largest : (tick :: limits).foldl raised none = some limit := largest
    exact ⟨limit, (mem_of_foldl_raised largest).resolve_left nofun, largest⟩

namespace Peer

variable {W : Type}

theorem tickLimit_receive (peer : Peer W) (message : Inbound) :
    (peer.receive message).tickLimit = message.limit?.toList.foldl raised peer.tickLimit := by
  cases message with
  | command | tickLimit => rfl
  | opinion author bytes => exact congrArg Core.tickLimit (core_receive_opinion peer author bytes)
  | diverged divergence => exact congrArg Core.tickLimit (core_receive_diverged peer divergence)

/-- Taking in messages raises the limit to the largest that waits. -/
theorem tickLimit_pump (peer : Peer W) : peer.pump.2.tickLimit =
    (peer.inbox.messages.filterMap Inbound.limit?).foldl raised peer.tickLimit := by
  rw [pump_eq_foldl, show peer.tickLimit = peer.emptied.tickLimit from rfl]
  generalize peer.emptied = other
  induction peer.inbox.messages generalizing other with
  | nil => rfl
  | cons message messages ih =>
    rw [List.foldl_cons, ih, tickLimit_receive, ← List.foldl_append]
    congr 1
    cases message <;> rfl

/-- A limit that a peer had is not lower later. -/
def Rises (peer later : Peer W) : Prop :=
  ∀ limit, peer.tickLimit = some limit → ∃ higher, later.tickLimit = some higher ∧ limit ≤ higher

theorem Rises.of_eq {peer later : Peer W} (same : later.tickLimit = peer.tickLimit) :
    peer.Rises later :=
  fun limit given => ⟨limit, same.trans given, UInt32.le_refl limit⟩

theorem Rises.trans {peer middle later : Peer W} (first : peer.Rises middle)
    (second : middle.Rises later) : peer.Rises later := by
  intro limit given
  obtain ⟨higher, given', below⟩ := first limit given
  obtain ⟨highest, given'', below'⟩ := second higher given'
  exact ⟨highest, given'', UInt32.le_trans below below'⟩

theorem rises_pump (peer : Peer W) : peer.Rises peer.pump.2 := by
  intro limit given
  rw [tickLimit_pump]
  exact le_raised given _

/-! ## What every call keeps -/

variable [World W] {peer final : Peer W} {records : List TickRecord}

theorem Works.rises (works : Works peer records final) : peer.Rises final := by
  induction works with
  | rest peer => exact .of_eq rfl
  | pump _ ih => exact (rises_pump _).trans ih
  | tick _ _ _ ih => exact (rises_pump _).trans (.trans (.of_eq (tickLimit_runTick _ _ _)) ih)

/-- A scope simulates ticks one after another, from the one that it is at. -/
theorem Works.counts (works : Works peer records final) (scope : ScopeId) :
    Counts (peer.nextTick? scope) (final.nextTick? scope)
      (ticksIn scope (records.map (·.report))) := by
  induction works with
  | rest peer => exact .refl _
  | pump _ ih =>
    rw [nextTick?_pump] at ih
    exact ih
  | @tick peer final other state records found _ _ ih =>
    by_cases own : other = scope
    · subst own
      have here : peer.nextTick? other = some state.next := by
        rw [← nextTick?_pump, nextTick?, found]
        rfl
      have next : (peer.pump.2.recordTick other state).2.nextTick? other = some state.next.next :=
        nextTick?_runTick_self _ _ _
      have own : (peer.pump.2.recordTick other state).1.report.scope = other := rfl
      have once : Counts (some state.next) (some state.next.next) [state.next] := ⟨1, rfl, rfl⟩
      rw [next] at ih
      rw [here, List.map_cons, ticksIn_cons_self own]
      exact once.trans ih
    · have next : (peer.pump.2.recordTick other state).2.nextTick? scope = peer.nextTick? scope :=
        (nextTick?_runTick_of_ne _ state (Ne.symm own)).trans (nextTick?_pump peer scope)
      rw [next] at ih
      rw [List.map_cons, ticksIn_cons_of_ne own]
      exact ih

/-- No tick is simulated beyond the largest limit that has come or waits, and no call changes which one
that is. -/
theorem Works.limit (works : Works peer records final) :
    final.pump.2.tickLimit = peer.pump.2.tickLimit ∧
      ∀ record ∈ records, ∀ limit, peer.pump.2.tickLimit = some limit →
        record.report.tick ≤ limit := by
  induction works with
  | rest => exact ⟨rfl, fun _ member => by cases member⟩
  | pump _ ih =>
    rw [pump_pump] at ih
    exact ih
  | @tick peer final scope state records _ free _ ih =>
    have empty : (peer.pump.2.recordTick scope state).2.inbox.messages = [] := by
      change (peer.pump.2.runTick scope state).2.inbox.messages = []
      rw [inbox_runTick, inbox_pump]
    have same : (peer.pump.2.recordTick scope state).2.pump.2.tickLimit = peer.pump.2.tickLimit := by
      rw [pump_of_none empty]
      exact tickLimit_runTick _ _ _
    rw [same] at ih
    refine ⟨ih.1, List.forall_mem_cons.mpr ⟨fun limit given => ?_, ih.2⟩⟩
    rw [given] at free
    exact UInt32.not_lt.mp (of_decide_eq_false free)

/-! ## Calls and their reports -/

/-- The reports in an answer. -/
def reportsOf {ε : Type} (answer : Except ε (List TickReport)) : List TickReport :=
  answer.toOption.getD []

/-- A peer has simulated what it reports. -/
def Reports (peer : Peer W) (reports : List TickReport) (final : Peer W) : Prop :=
  ∃ records, Works peer records final ∧ reports = records.map (·.report)

theorem reports_advance (peer : Peer W) (scope : ScopeId) :
    peer.Reports (reportsOf ((peer.advance scope).1.map Option.toList)) (peer.advance scope).2 := by
  rw [advance_eq_record]
  refine ⟨_, works_recordAdvance peer scope, ?_⟩
  cases (peer.recordAdvance scope).1 with
  | error error => rfl
  | ok record? =>
    cases record? with
    | none => rfl
    | some record => rfl

theorem reports_advanceAll (peer : Peer W) :
    peer.Reports peer.advanceAll.1 peer.advanceAll.2 := by
  rw [advanceAll_eq_record]
  exact ⟨_, works_recordAll peer, rfl⟩

/-- A scope that is there is held back by the limit, or it simulates a tick that the limit allows. -/
theorem advance_known {scope : ScopeId} {next : Tick} (known : peer.nextTick? scope = some next) :
    (∃ limit, peer.pump.2.tickLimit = some limit ∧ limit < next ∧
      peer.advance scope = (.ok none, peer.pump.2)) ∨
    ∃ report after, peer.advance scope = (.ok (some report), after) ∧
      after.nextTick? scope = some next.next ∧ after.pump.2.tickLimit = peer.pump.2.tickLimit ∧
      ∀ limit, peer.pump.2.tickLimit = some limit → next ≤ limit := by
  rw [← nextTick?_pump] at known
  obtain ⟨state, found, rfl⟩ := Option.map_eq_some_iff.mp known
  simp only [advance, found]
  split
  next held =>
    obtain ⟨limit, given, below⟩ := Option.any_eq_true _ _ |>.mp held
    exact .inl ⟨limit, given, of_decide_eq_true below, rfl⟩
  next free =>
    refine .inr ⟨_, _, rfl, nextTick?_runTick_self _ _ _, ?_, fun limit given => ?_⟩
    · rw [pump_of_none (by rw [inbox_runTick, inbox_pump]), tickLimit_runTick]
    · rw [given] at free
      exact UInt32.not_lt.mp fun below => free (decide_eq_true below)

theorem runWithin_unknown {scope : ScopeId} (unknown : peer.nextTick? scope = none) (tick : Tick)
    (steps : Nat) (reports : List TickReport) :
    runWithin scope tick steps peer reports = some (.error (.unknownScope scope), peer) := by
  cases steps with
  | zero => rw [runWithin, unknown]
  | succ steps => rw [runWithin, unknown]

/-- A scope that is there is not missed while it is advanced. -/
theorem unknown_of_runWithin {scope : ScopeId} {tick : Tick} {steps : Nat} {reports : List TickReport}
    {error : PeerError} (failed : runWithin scope tick steps peer reports = some (.error error, final)) :
    peer.nextTick? scope = none := by
  induction steps generalizing peer reports with
  | zero =>
    rw [runWithin] at failed
    cases known : peer.nextTick? scope with
    | none => rfl
    | some next =>
      simp only [known] at failed
      split_ifs at failed
      · cases failed
      · cases failed
  | succ steps ih =>
    rw [runWithin] at failed
    cases known : peer.nextTick? scope with
    | none => rfl
    | some next =>
      simp only [known] at failed
      split_ifs at failed
      · cases failed
      · rcases advance_known known with ⟨limit, -, -, held⟩ | ⟨report, after, ran, there, -, -⟩
        · rw [held] at failed
          cases failed
        · rw [ran] at failed
          cases there.symm.trans (ih failed)

theorem reports_runUntil {scope : ScopeId} {tick : Tick} {answer : Except PeerError (List TickReport)}
    (ran : peer.runUntil scope tick = some (answer, final)) :
    peer.Reports (reportsOf answer) final := by
  cases answer with
  | error error =>
    rw [runUntil, runWithin_unknown (unknown_of_runWithin ran)] at ran
    cases ran
    exact ⟨[], .rest _, rfl⟩
  | ok reports =>
    rw [runUntil_eq_record] at ran
    obtain ⟨⟨result, records, after⟩, recorded, same⟩ := Option.map_eq_some_iff.mp ran
    cases result with
    | error error => cases same
    | ok _ =>
      cases same
      exact ⟨records, works_recordWithin recorded, rfl⟩

/-- A run up to a tick comes to an end: the scope is past the tick, or the limit holds it back. Either
the tick or the limit has to be one that something comes after. -/
theorem runWithin_returns {scope : ScopeId} {tick next : Tick} {steps : Nat}
    (known : peer.nextTick? scope = some next)
    (ends : tick ≠ .last ∨ ∃ limit, peer.pump.2.tickLimit = some limit ∧ limit ≠ .last)
    (enough : tick.toNat + 1 - next.toNat ≤ steps) (reports : List TickReport) :
    ∃ answer after next, runWithin scope tick steps peer reports = some (.ok answer, after) ∧
      after.nextTick? scope = some next ∧
      (tick < next ∨ ∃ limit, after.tickLimit = some limit ∧ limit < next) := by
  induction steps generalizing peer next reports with
  | zero =>
    have past : tick < next := UInt32.lt_iff_toNat_lt.mpr (by omega)
    refine ⟨reports.reverse, peer, next, ?_, known, .inl past⟩
    rw [runWithin, known]
    exact if_pos past
  | succ steps ih =>
    rw [runWithin, known]
    by_cases past : tick < next
    · exact ⟨reports.reverse, peer, next, if_pos past, known, .inl past⟩
    · simp only [if_neg past]
      rcases advance_known known with
        ⟨limit, given, below, held⟩ | ⟨report, after, ran, there, same, allowed⟩
      · rw [held]
        exact ⟨reports.reverse, peer.pump.2, next, rfl, (nextTick?_pump _ _).trans known,
          .inr ⟨limit, given, below⟩⟩
      · rw [ran]
        have inside : next.toNat + 1 < UInt32.size := by
          rcases ends with early | ⟨limit, given, early⟩
          · exact Tick.succ_lt_size early (UInt32.not_lt.mp past)
          · exact Tick.succ_lt_size early (allowed limit given)
        have one : next.next.toNat = next.toNat + 1 := Tick.toNat_next inside
        rw [← same] at ends
        exact ih there ends (by omega) (report :: reports)

end Peer

/-! ## Runs -/

/-- A peer, and what has come of it so far. -/
structure Progress (W : Type) where
  peer : Peer W
  /-- The tick that each scope started at. -/
  started : ScopeId → Option Tick
  /-- The tick limits that have come, in order, taken in or not. -/
  limits : List Tick
  /-- The reports, in order, each with the limits that had come before it. -/
  log : List (TickReport × List Tick) := []

namespace Progress

variable {W : Type}

/-- What is asked of a peer, and what comes to it. -/
inductive Call where
  | addScope (scope : ScopeId) (start : Tick)
  | deliver (message : Inbound)
  | pump
  | setTickLimit (tick : Tick)
  | advance (scope : ScopeId)
  | advanceAll
  | runUntil (scope : ScopeId) (tick : Tick)

/-- The start of a run. -/
def ofPeer (peer : Peer W) : Progress W where
  peer
  started := peer.nextTick?
  limits := peer.tickLimit.toList ++ peer.inbox.messages.filterMap Inbound.limit?

/-- Go on with a peer after a call that has returned reports. -/
def note (progress : Progress W) (reports : List TickReport) (peer : Peer W) : Progress W :=
  { progress with peer, log := progress.log ++ reports.map (·, progress.limits) }

/-- The ticks that a scope has reported, in order. -/
def ticks (progress : Progress W) (scope : ScopeId) : List Tick :=
  ticksIn scope (progress.log.map (·.1))

variable [World W]

/-- Take a step, unless it never returns. -/
def step (progress : Progress W) : Call → Option (Progress W)
  | .addScope scope start =>
    match progress.peer.addScope scope start with
    | .ok peer => some { progress with
        peer, started := fun other => if other = scope then some start else progress.started other }
    | .error _ => some progress
  | .deliver message =>
    match progress.peer.inbox.send message with
    | .ok inbox => some { progress with
        peer := { progress.peer with inbox }, limits := progress.limits ++ message.limit?.toList }
    | .error _ => some progress
  | .pump => some { progress with peer := progress.peer.pump.2 }
  | .setTickLimit tick => some { progress with
      peer := progress.peer.raiseTickLimit tick, limits := progress.limits ++ [tick] }
  | .advance scope =>
    let (answer, peer) := progress.peer.advance scope
    some (progress.note (Peer.reportsOf (answer.map Option.toList)) peer)
  | .advanceAll =>
    let (reports, peer) := progress.peer.advanceAll
    some (progress.note reports peer)
  | .runUntil scope tick =>
    (progress.peer.runUntil scope tick).map fun (answer, peer) =>
      progress.note (Peer.reportsOf answer) peer

/-- Take steps one after another. -/
def play (progress : Progress W) (calls : List Call) : Option (Progress W) := calls.foldlM step progress

/-- What holds at any time of a run. -/
structure Keeps (progress : Progress W) : Prop where
  counts (scope : ScopeId) :
    Counts (progress.started scope) (progress.peer.nextTick? scope) (progress.ticks scope)
  limit : progress.peer.pump.2.tickLimit = highest progress.limits
  limited {report : TickReport} {limits : List Tick} : (report, limits) ∈ progress.log →
    ∀ limit, highest limits = some limit → report.tick ≤ limit

variable {progress after : Progress W} {peer : Peer W}

omit [World W] in
theorem keeps_ofPeer (peer : Peer W) : (ofPeer peer).Keeps where
  counts scope := .refl _
  limit := by
    rw [Peer.tickLimit_pump, highest, ofPeer, List.foldl_append]
    cases peer.tickLimit with
    | none => rfl
    | some limit => rfl
  limited member := by cases member

/-- Ticks that are simulated go on from where the scopes are. -/
theorem Keeps.note {reports : List TickReport} (keeps : progress.Keeps)
    (did : progress.peer.Reports reports peer) : (progress.note reports peer).Keeps := by
  obtain ⟨records, works, rfl⟩ := did
  obtain ⟨same, within⟩ := works.limit
  refine ⟨fun scope => ?_, same.trans keeps.limit, fun {report limits} member => ?_⟩
  · have appended : (progress.note (records.map (·.report)) peer).ticks scope =
        progress.ticks scope ++ ticksIn scope (records.map (·.report)) := by
      rw [ticks, Progress.note, List.map_append, ticksIn_append, List.map_map]
      congr 2
      exact List.map_id _
    rw [appended]
    exact (keeps.counts scope).trans (works.counts scope)
  · rcases List.mem_append.mp member with old | new
    · exact keeps.limited old
    · obtain ⟨_, reported, same⟩ := List.mem_map.mp new
      cases same
      obtain ⟨record, simulated, rfl⟩ := List.mem_map.mp reported
      intro limit largest
      exact within record simulated limit (keeps.limit.trans largest)

omit [World W] in
/-- A scope that is added has not simulated anything yet. -/
theorem Keeps.addScope {scope : ScopeId} {start : Tick} (keeps : progress.Keeps)
    (added : progress.peer.addScope scope start = .ok peer) : Keeps { progress with
      peer, started := fun other => if other = scope then some start else progress.started other } := by
  rw [Peer.addScope] at added
  split at added
  next => cases added
  next missing =>
    cases added
    refine ⟨fun other => ?_, ?_, keeps.limited⟩
    · have counts := keeps.counts other
      change Counts (if other = scope then some start else progress.started other) _
        (progress.ticks other)
      by_cases own : other = scope
      · subst own
        have unknown : progress.peer.nextTick? other = none := by
          rw [Peer.nextTick?, Option.not_isSome_iff_eq_none.mp missing]
          rfl
        obtain ⟨count, here, before⟩ := counts
        rw [unknown] at here
        rw [Option.map_eq_none_iff.mp here.symm] at before
        have next : ((progress.peer.scopes.insert other (Peer.startScope progress.peer.config other
            start)).get? other).map (·.next) = some start := by
          rw [SortedMap.get?_insert_self]
          rfl
        rw [if_pos rfl, before, Peer.nextTick?, next]
        exact .refl _
      · rw [if_neg own, Peer.nextTick?, SortedMap.get?_insert_of_ne _ _ own]
        exact counts
    · rw [← keeps.limit, Peer.tickLimit_pump, Peer.tickLimit_pump]

theorem Keeps.step {call : Call} (keeps : progress.Keeps) (stepped : progress.step call = some after) :
    after.Keeps := by
  cases call with
  | addScope scope start =>
    rw [Progress.step] at stepped
    split at stepped
    next peer added =>
      cases stepped
      exact keeps.addScope added
    next =>
      cases stepped
      exact keeps
  | deliver message =>
    rw [Progress.step] at stepped
    split at stepped
    next inbox sent =>
      cases stepped
      refine ⟨keeps.counts, ?_, keeps.limited⟩
      rw [highest, List.foldl_append, ← highest, ← keeps.limit, Peer.tickLimit_pump,
        Peer.tickLimit_pump, Inbox.send_eq_ok sent, List.filterMap_append, List.foldl_append]
      cases message <;> rfl
    next =>
      cases stepped
      exact keeps
  | pump =>
    cases stepped
    refine ⟨?_, ?_, keeps.limited⟩
    · intro scope
      rw [Peer.nextTick?_pump]
      exact keeps.counts scope
    · rw [Peer.pump_pump]
      exact keeps.limit
  | setTickLimit tick =>
    cases stepped
    refine ⟨keeps.counts, ?_, keeps.limited⟩
    rw [highest, List.foldl_append, ← highest, ← keeps.limit, Peer.tickLimit_pump, Peer.tickLimit_pump]
    exact foldl_raised_raised _ _ tick
  | advance scope =>
    cases stepped
    exact keeps.note (Peer.reports_advance _ _)
  | advanceAll =>
    cases stepped
    exact keeps.note (Peer.reports_advanceAll _)
  | runUntil scope tick =>
    obtain ⟨⟨answer, peer⟩, ran, rfl⟩ := Option.map_eq_some_iff.mp stepped
    exact keeps.note (Peer.reports_runUntil ran)

theorem rises_step {call : Call} (stepped : progress.step call = some after) :
    progress.peer.Rises after.peer := by
  have reported {reports : List TickReport} {peer : Peer W}
      (did : progress.peer.Reports reports peer) : progress.peer.Rises peer := by
    obtain ⟨records, works, -⟩ := did
    exact works.rises
  cases call with
  | addScope scope start =>
    rw [Progress.step, Peer.addScope] at stepped
    split at stepped
    next peer added =>
      cases stepped
      split at added
      next => cases added
      next => cases added; exact .of_eq rfl
    next =>
      cases stepped
      exact .of_eq rfl
  | deliver message =>
    rw [Progress.step] at stepped
    split at stepped
    next =>
      cases stepped
      exact .of_eq rfl
    next =>
      cases stepped
      exact .of_eq rfl
  | pump =>
    cases stepped
    exact Peer.rises_pump _
  | setTickLimit tick =>
    cases stepped
    exact fun limit given => le_raised given [tick]
  | advance scope =>
    cases stepped
    exact reported (Peer.reports_advance _ _)
  | advanceAll =>
    cases stepped
    exact reported (Peer.reports_advanceAll _)
  | runUntil scope tick =>
    obtain ⟨⟨answer, peer⟩, ran, rfl⟩ := Option.map_eq_some_iff.mp stepped
    exact reported (Peer.reports_runUntil ran)

theorem keeps_play {calls : List Call} (keeps : progress.Keeps)
    (played : progress.play calls = some after) : after.Keeps := by
  induction calls generalizing progress with
  | nil =>
    cases played
    exact keeps
  | cons call calls ih =>
    obtain ⟨next, stepped, played⟩ := Option.bind_eq_some_iff.mp played
    exact ih (keeps.step stepped) played

theorem rises_play {calls : List Call} (played : progress.play calls = some after) :
    progress.peer.Rises after.peer := by
  induction calls generalizing progress with
  | nil =>
    cases played
    exact .of_eq rfl
  | cons call calls ih =>
    obtain ⟨next, stepped, played⟩ := Option.bind_eq_some_iff.mp played
    exact (rises_step stepped).trans (ih played)

/-- What can be told of a run at any time. -/
structure GoesForward (progress : Progress W) : Prop where
  /-- The reports of a scope are on the ticks that follow its start, counted up to the last tick. -/
  counted {scope : ScopeId} {start tick : Tick} {i : Nat} : progress.started scope = some start →
    (progress.ticks scope)[i]? = some tick → tick.toNat = min (start.toNat + i) Tick.last.toNat
  /-- The scope is at the tick after those. -/
  next {scope : ScopeId} {start : Tick} : progress.started scope = some start →
    ∃ next, progress.peer.nextTick? scope = some next ∧
      next.toNat = min (start.toNat + (progress.ticks scope).length) Tick.last.toNat
  /-- So they ascend, and none but the last tick comes twice. -/
  ascending (scope : ScopeId) : (progress.ticks scope).Pairwise fun earlier later =>
    earlier < later ∨ earlier = .last ∧ later = .last
  silent {scope : ScopeId} : progress.started scope = none → progress.ticks scope = []
  /-- No report is on a tick beyond all the limits that had come, if any had. -/
  limited {report : TickReport} {limits : List Tick} : (report, limits) ∈ progress.log →
    limits ≠ [] → ∃ limit ∈ limits, report.tick ≤ limit
  /-- The limit does not fall, whatever is done next. -/
  rises {calls : List Call} {later : Progress W} : progress.play calls = some later →
    progress.peer.Rises later.peer
  /-- A run up to a tick returns, and the scope is past the tick or held back. -/
  returns {scope : ScopeId} {tick : Tick} : (progress.peer.nextTick? scope).isSome →
    (tick ≠ .last ∨ ∃ limit, progress.peer.pump.2.tickLimit = some limit ∧ limit ≠ .last) →
    ∃ reports after next, progress.peer.runUntil scope tick = some (.ok reports, after) ∧
      after.nextTick? scope = some next ∧
      (tick < next ∨ ∃ limit, after.tickLimit = some limit ∧ limit < next)
  refuses {scope : ScopeId} (tick : Tick) : progress.peer.nextTick? scope = none →
    progress.peer.runUntil scope tick = some (.error (.unknownScope scope), progress.peer)

/-- Whatever is asked of a peer and comes to it, its scopes go forward, tick by tick. -/
theorem goes_forward {calls : List Call} (played : (ofPeer peer).play calls = some progress) :
    progress.GoesForward := by
  have keeps := keeps_play (keeps_ofPeer peer) played
  refine {
    counted := fun {scope start tick i} begun reported => ?_
    next := fun {scope start} begun => ?_
    ascending := fun scope => ?_
    silent := fun {scope} unknown => ?_
    limited := fun member some_ => ?_
    rises := rises_play
    returns := fun {scope tick} there ends => ?_
    refuses := fun tick unknown => Peer.runWithin_unknown unknown tick _ [] }
  · obtain ⟨count, -, ticks⟩ := keeps.counts scope
    rw [begun] at ticks
    rw [ticks] at reported
    have inside : i < count := by
      obtain ⟨inside, -⟩ := List.getElem?_eq_some_iff.mp reported
      rwa [Option.elim_some, List.length_iterate] at inside
    rw [Option.elim_some, List.getElem?_iterate _ _ _ _ inside, Option.some.injEq] at reported
    rw [← reported, Tick.toNat_iterate_next]
  · obtain ⟨count, arrived, ticks⟩ := keeps.counts scope
    rw [begun] at ticks arrived
    refine ⟨Tick.next^[count] start, arrived, ?_⟩
    rw [ticks, Option.elim_some, List.length_iterate, Tick.toNat_iterate_next]
  · obtain ⟨count, -, ticks⟩ := keeps.counts scope
    rw [ticks]
    cases progress.started scope with
    | none => exact List.Pairwise.nil
    | some start => exact Tick.pairwise_iterate_next start count
  · obtain ⟨count, -, ticks⟩ := keeps.counts scope
    rw [ticks, unknown]
    rfl
  · obtain ⟨limit, one, largest⟩ := highest_mem some_
    exact ⟨limit, one, keeps.limited member limit largest⟩
  · obtain ⟨next, known⟩ := Option.isSome_iff_exists.mp there
    refine Peer.runWithin_returns known ends ?_ []
    rw [known]
    exact Nat.le_refl _

/-- A limit comes by message, is raised, and the scopes run up to it. -/
def limitedCalls : List Call := [
  .addScope (.map 1) 7, .advance .global, .deliver (.tickLimit 8), .runUntil (.map 1) 9,
  .setTickLimit 9, .addScope (.map 1) 0, .advanceAll, .runUntil .global 2]

theorem limited_run_goes_forward :
    ∃ progress, (ofPeer levelPeer).play limitedCalls = some progress ∧ progress.GoesForward ∧
      progress.ticks (.map 1) = [7, 8, 9] ∧ progress.ticks .global = [0, 1, 2] ∧
      progress.log.map (·.2) = [[], [8], [8], [8, 9], [8, 9], [8, 9]] := by
  have ran : ((ofPeer levelPeer).play limitedCalls).isSome := by decide +kernel
  obtain ⟨progress, played⟩ := Option.isSome_iff_exists.mp ran
  have shown : ((ofPeer levelPeer).play limitedCalls).map (fun progress =>
      (progress.ticks (.map 1), progress.ticks .global, progress.log.map (·.2))) =
        some ([7, 8, 9], [0, 1, 2], [[], [8], [8], [8, 9], [8, 9], [8, 9]]) := by decide +kernel
  rw [played] at shown
  obtain ⟨ticks, others, limits⟩ := by
    simpa only [Option.map_some, Option.some.injEq, Prod.mk.injEq] using shown
  exact ⟨progress, played, goes_forward played, ticks, others, limits⟩

/-- A map starts at the last tick. -/
def lastCalls : List Call := [.addScope (.map 1) .last, .advance (.map 1), .advance (.map 1)]

/-- The last tick is simulated again and again, and a run up to it has no end. -/
theorem last_tick_runs_again :
    ∃ progress, (ofPeer levelPeer).play lastCalls = some progress ∧
      progress.ticks (.map 1) = [.last, .last] ∧ ¬ (progress.ticks (.map 1)).Pairwise (· < ·) ∧
      progress.peer.runUntil (.map 1) .last = none := by
  have ran : ((ofPeer levelPeer).play lastCalls).isSome := by decide +kernel
  obtain ⟨progress, played⟩ := Option.isSome_iff_exists.mp ran
  have shown : ((ofPeer levelPeer).play lastCalls).map (fun progress =>
      (progress.ticks (.map 1), (progress.peer.runUntil (.map 1) .last).isNone)) =
        some ([.last, .last], true) := by decide +kernel
  rw [played] at shown
  obtain ⟨ticks, endless⟩ := by
    simpa only [Option.map_some, Option.some.injEq, Prod.mk.injEq] using shown
  refine ⟨progress, played, ticks, ?_, Option.isNone_iff_eq_none.mp endless⟩
  rw [ticks]
  decide

end Progress

end Lockstep
