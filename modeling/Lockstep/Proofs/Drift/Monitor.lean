import Lockstep.Drift.Monitor
import Lockstep.Proofs.Ident
import Mathlib.Data.List.DropRight

/-! # What a monitor keeps, and when it speaks

A monitor is asked to take samples and to close ticks, in any order and at any pace. It speaks where a
multiple of its interval is closed, unless it has taken no sample since it spoke last, and what it tells
are the latest of these samples, as many as it keeps (`DriftMonitor.tells_latest_samples`). Three things
run at their own pace here: the window drops old samples, an opinion takes all of them away, and the count
of ticks starts again whether there was an opinion or not. `DriftMonitor.Follows` says of each what it comes
to after any calls.
-/

namespace Lockstep

namespace DriftMonitor

variable {monitor : DriftMonitor} {all : List DriftSample} {scope : ScopeId} {tick : Tick}
  {interval count : Nat}

/-! ## One call -/

/-- A monitor that is sampled once more still holds the latest samples. -/
theorem samples_record_eq_rtake (positive : 0 < monitor.capacity)
    (kept : monitor.samples = all.rtake monitor.capacity) (tick : Tick) (state : StreamState) :
    (monitor.record tick state).samples =
      (all ++ [(⟨tick, state.fold⟩ : DriftSample)]).rtake monitor.capacity := by
  obtain ⟨capacity, same⟩ := Nat.exists_eq_succ_of_ne_zero (Nat.ne_of_gt positive)
  have size := Window.length_toList monitor.window
  have held : monitor.window.toList = all.rtake monitor.capacity := kept
  rw [held, same, List.rtake, List.length_drop] at size
  rw [record, samples, Window.push, same, List.rtake_concat_succ]
  split
  next full =>
    rw [Window.toList_grow, Window.toList_drop, held, same, List.rtake, List.rtake, List.drop_drop]
    congr 2
    omega
  next inside =>
    rw [Window.toList_grow, held, same, List.rtake, List.rtake]
    congr 2
    omega

/-- Before the interval is over, closing a tick only counts it. -/
theorem endTick_of_early (early : monitor.elapsed + 1 < monitor.interval) :
    monitor.endTick scope tick = (none, { monitor with elapsed := monitor.elapsed + 1 }) :=
  if_pos early

/-- At the end of an interval without samples, the count starts again and that is all. -/
theorem endTick_of_nil (due : ¬monitor.elapsed + 1 < monitor.interval) (nothing : monitor.samples = []) :
    monitor.endTick scope tick = (none, { monitor with elapsed := 0 }) :=
  (if_neg due).trans (if_pos (Window.isEmpty_iff.mpr nothing))

/-- At the end of an interval all samples leave. -/
theorem endTick_of_ne_nil (due : ¬monitor.elapsed + 1 < monitor.interval)
    (something : monitor.samples ≠ []) :
    monitor.endTick scope tick =
      (some ⟨scope, tick, monitor.samples⟩, { monitor with elapsed := 0, window := .empty }) :=
  (if_neg due).trans (if_neg (mt Window.isEmpty_iff.mp something))

/-- An opinion is on the tick that closes its window. -/
theorem endTick_eq_some {opinion : DriftOpinion} (due : (monitor.endTick scope tick).1 = some opinion) :
    opinion.scope = scope ∧ opinion.tick = tick := by
  by_cases early : monitor.elapsed + 1 < monitor.interval
  · rw [endTick_of_early early] at due
    cases due
  · by_cases nothing : monitor.samples = []
    · rw [endTick_of_nil early nothing] at due
      cases due
    · rw [endTick_of_ne_nil early nothing] at due
      cases due
      exact ⟨rfl, rfl⟩

/-! ## The count of ticks -/

/-- A count that is inside the interval has room for one more tick. -/
theorem toNat_elapsed_succ (inside : monitor.elapsed.toNat < monitor.interval.toNat) :
    (monitor.elapsed + 1).toNat = monitor.elapsed.toNat + 1 := by
  have bound := monitor.interval.toNat_lt
  have one : (1 : UInt32).toNat = 1 := rfl
  rw [UInt32.toNat_add, one, Nat.mod_eq_of_lt (by omega)]

/-- So many ticks after an exchange, the next tick is the last of its interval. -/
theorem dvd_succ_iff (positive : 0 < interval) :
    interval ∣ count + 1 ↔ ¬count % interval + 1 < interval := by
  have below : count % interval < interval := Nat.mod_lt _ positive
  have split : count + 1 = interval * (count / interval) + (count % interval + 1) := by
    rw [← Nat.add_assoc, Nat.div_add_mod]
  rw [split, Nat.dvd_add_right (Nat.dvd_mul_right _ _)]
  constructor
  · intro whole
    exact Nat.not_lt.mpr (Nat.le_of_dvd (Nat.succ_pos _) whole)
  · intro last
    have full : count % interval + 1 = interval := by omega
    exact full.symm ▸ Nat.dvd_refl interval

/-- An opinion is due when the ticks fill intervals. -/
theorem due_iff (regular : 0 < monitor.interval.toNat)
    (counted : monitor.elapsed.toNat = count % monitor.interval.toNat) :
    ¬monitor.elapsed + 1 < monitor.interval ↔ monitor.interval.toNat ∣ count + 1 := by
  have inside : monitor.elapsed.toNat < monitor.interval.toNat := counted ▸ Nat.mod_lt _ regular
  rw [dvd_succ_iff regular, UInt32.lt_iff_toNat_lt, toNat_elapsed_succ inside, counted]

end DriftMonitor

/-! ## Any calls -/

/-- What a monitor is asked to do. -/
inductive MonitorCall where
  | record (tick : Tick) (state : StreamState)
  | endTick (scope : ScopeId) (tick : Tick)

namespace MonitorCall

/-- The sample that a call takes. -/
def sample? : MonitorCall → Option DriftSample
  | record tick state => some ⟨tick, state.fold⟩
  | endTick .. => none

def closesTick : MonitorCall → Bool
  | record .. => false
  | endTick .. => true

end MonitorCall

/-- What a monitor was asked and what it answered, in order. -/
abbrev MonitorLog := List (MonitorCall × Option DriftOpinion)

namespace MonitorLog

/-- How many ticks have been closed. -/
def closed (log : MonitorLog) : Nat := log.countP (·.1.closesTick)

/-- The samples that were taken since the last opinion, in order. -/
def untold (log : MonitorLog) : List DriftSample :=
  (log.rtakeWhile (·.2.isNone)).filterMap (·.1.sample?)

variable {log : MonitorLog} {scope : ScopeId} {tick : Tick} {opinion? : Option DriftOpinion}

theorem closed_record (state : StreamState) :
    closed (log ++ [(.record tick state, opinion?)]) = log.closed := by
  simp [closed, MonitorCall.closesTick]

theorem closed_endTick : closed (log ++ [(.endTick scope tick, opinion?)]) = log.closed + 1 := by
  simp [closed, MonitorCall.closesTick]

theorem untold_record (state : StreamState) :
    untold (log ++ [(.record tick state, none)]) = log.untold ++ [⟨tick, state.fold⟩] := by
  rw [untold, List.rtakeWhile_concat_pos _ _ _ rfl, List.filterMap_append]
  rfl

theorem untold_silent : untold (log ++ [(.endTick scope tick, none)]) = log.untold := by
  rw [untold, List.rtakeWhile_concat_pos _ _ _ rfl, List.filterMap_append]
  exact List.append_nil _

theorem untold_told (opinion : DriftOpinion) :
    untold (log ++ [(.endTick scope tick, some opinion)]) = [] := by
  rw [untold, List.rtakeWhile_concat_neg _ _ _ Bool.false_ne_true, List.filterMap_nil]

end MonitorLog

namespace DriftMonitor

/-- Do as asked. Only the closing of a tick may be answered. -/
def answer (monitor : DriftMonitor) : MonitorCall → Option DriftOpinion × DriftMonitor
  | .record tick state => (none, monitor.record tick state)
  | .endTick scope tick => monitor.endTick scope tick

/-- Do as asked, one call after another, and keep a log. -/
def run (capacity : Nat) (interval : UInt32) (calls : List MonitorCall) : MonitorLog × DriftMonitor :=
  calls.foldl (fun (log, monitor) call =>
    let (opinion?, monitor) := monitor.answer call
    (log ++ [(call, opinion?)], monitor)) ([], new capacity interval)

/-- What a monitor has come to: it holds the latest of the samples that it has not told of, and has counted
the ticks since its interval was last over. -/
structure Follows (capacity : Nat) (interval : UInt32) (log : MonitorLog) (monitor : DriftMonitor) :
    Prop where
  capacity : monitor.capacity = max capacity 1
  interval : monitor.interval.toNat = max interval.toNat 1
  elapsed : monitor.elapsed.toNat = log.closed % monitor.interval.toNat
  samples : monitor.samples = log.untold.rtake monitor.capacity

theorem follows_new (capacity : Nat) (interval : UInt32) :
    Follows capacity interval [] (new capacity interval) where
  capacity := rfl
  interval := Tick.toNat_max interval 1
  elapsed := (Nat.zero_mod _).symm
  samples := (List.rtake_nil _).symm

namespace Follows

variable {capacity : Nat} {interval : UInt32} {log : MonitorLog}

theorem positive (follows : Follows capacity interval log monitor) : 0 < monitor.capacity :=
  follows.capacity ▸ Nat.le_max_right _ _

theorem regular (follows : Follows capacity interval log monitor) : 0 < monitor.interval.toNat :=
  follows.interval ▸ Nat.le_max_right _ _

theorem inside (follows : Follows capacity interval log monitor) :
    monitor.elapsed.toNat < monitor.interval.toNat :=
  follows.elapsed ▸ Nat.mod_lt _ follows.regular

theorem record (follows : Follows capacity interval log monitor) (tick : Tick) (state : StreamState) :
    Follows capacity interval (log ++ [(.record tick state, none)]) (monitor.record tick state) where
  capacity := follows.capacity
  interval := follows.interval
  elapsed := by
    rw [MonitorLog.closed_record]
    exact follows.elapsed
  samples := by
    rw [MonitorLog.untold_record]
    exact samples_record_eq_rtake follows.positive follows.samples tick state

theorem endTick (follows : Follows capacity interval log monitor) (scope : ScopeId) (tick : Tick) :
    Follows capacity interval (log ++ [(.endTick scope tick, (monitor.endTick scope tick).1)])
      (monitor.endTick scope tick).2 := by
  have turn := due_iff follows.regular follows.elapsed
  by_cases early : monitor.elapsed + 1 < monitor.interval
  · rw [endTick_of_early early]
    refine ⟨follows.capacity, follows.interval, ?_, ?_⟩
    · rw [UInt32.lt_iff_toNat_lt, toNat_elapsed_succ follows.inside, follows.elapsed] at early
      change (monitor.elapsed + 1).toNat = _ % monitor.interval.toNat
      rw [MonitorLog.closed_endTick, toNat_elapsed_succ follows.inside, follows.elapsed,
        ← Nat.mod_add_mod, Nat.mod_eq_of_lt early]
    · rw [MonitorLog.untold_silent]
      exact follows.samples
  · have again : 0 = (log.closed + 1) % monitor.interval.toNat :=
      (Nat.mod_eq_zero_of_dvd (turn.mp early)).symm
    by_cases nothing : monitor.samples = []
    · rw [endTick_of_nil early nothing]
      refine ⟨follows.capacity, follows.interval, ?_, ?_⟩
      · rw [MonitorLog.closed_endTick]
        exact again
      · rw [MonitorLog.untold_silent]
        exact follows.samples
    · rw [endTick_of_ne_nil early nothing]
      refine ⟨follows.capacity, follows.interval, ?_, ?_⟩
      · rw [MonitorLog.closed_endTick]
        exact again
      · rw [MonitorLog.untold_told, List.rtake_nil]
        rfl

end Follows

/-- What a monitor answers to the closing of a tick, and with which count. -/
theorem Follows.endTick_eq_some_iff {capacity : Nat} {interval : UInt32} {log : MonitorLog}
    (follows : Follows capacity interval log monitor) {opinion : DriftOpinion} :
    (monitor.endTick scope tick).1 = some opinion ↔
      max interval.toNat 1 ∣ log.closed + 1 ∧ log.untold ≠ [] ∧ opinion = ⟨scope, tick, monitor.samples⟩ := by
  have turn := due_iff follows.regular follows.elapsed
  have held : monitor.samples = [] ↔ log.untold = [] := by
    have positive := follows.positive
    rw [follows.samples, List.rtake, List.drop_eq_nil_iff, ← List.length_eq_zero_iff]
    omega
  rw [← follows.interval, ← turn, Ne, ← held]
  by_cases early : monitor.elapsed + 1 < monitor.interval
  · simp [endTick_of_early early, early]
  · by_cases nothing : monitor.samples = []
    · simp [endTick_of_nil early nothing, nothing]
    · simp [endTick_of_ne_nil early nothing, early, nothing, eq_comm]

theorem follows_run (capacity : Nat) (interval : UInt32) (calls : List MonitorCall) :
    Follows capacity interval (run capacity interval calls).1 (run capacity interval calls).2 := by
  induction calls using List.reverseRecOn with
  | nil => exact follows_new capacity interval
  | append_singleton calls call ih =>
    rw [run, List.foldl_append]
    cases call with
    | record tick state => exact ih.record tick state
    | endTick scope tick => exact ih.endTick scope tick

/-- Whatever a monitor has been asked, it holds the last of the samples that it has not told of, as many as
its capacity. The closing of a tick is answered with an opinion on that tick exactly if it fills an
interval and there is something to tell, and the opinion has the samples that are held. The count of ticks
has room for the tick, and does not pass the interval. -/
theorem tells_latest_samples (capacity : Nat) (interval : UInt32) (calls : List MonitorCall) :
    let (log, monitor) := run capacity interval calls
    monitor.samples = log.untold.rtake (min (max capacity 1) log.untold.length) ∧
      (∀ scope tick opinion, (monitor.endTick scope tick).1 = some opinion ↔
        max interval.toNat 1 ∣ log.closed + 1 ∧ log.untold ≠ [] ∧
          opinion = ⟨scope, tick, log.untold.rtake (min (max capacity 1) log.untold.length)⟩) ∧
      (monitor.elapsed + 1).toNat = monitor.elapsed.toNat + 1 ∧
      monitor.elapsed.toNat + 1 ≤ max interval.toNat 1 := by
  have follows := follows_run capacity interval calls
  generalize run capacity interval calls = result at follows ⊢
  obtain ⟨log, monitor⟩ := result
  change Follows capacity interval log monitor at follows
  have held : monitor.samples = log.untold.rtake (min (max capacity 1) log.untold.length) := by
    rw [follows.samples, follows.capacity, List.rtake, List.rtake]
    congr 1
    omega
  refine ⟨held, fun scope tick opinion => ?_, toNat_elapsed_succ follows.inside, ?_⟩
  · rw [← held]
    exact follows.endTick_eq_some_iff
  · rw [← follows.interval]
    exact follows.inside

-- Of three samples two are kept, and the second interval has nothing to tell.
example : (run 2 2 [.record 5 default, .record 5 default, .endTick .global 5, .record 6 default,
    .endTick .global 6, .endTick .global 7, .endTick .global 8]).1.filterMap (·.2) =
      [⟨.global, 6, [⟨5, (default : StreamState).fold⟩, ⟨6, (default : StreamState).fold⟩]⟩] := by decide

end DriftMonitor

end Lockstep
