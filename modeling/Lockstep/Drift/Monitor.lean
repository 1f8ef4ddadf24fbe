import Lockstep.Breakdown
import Lockstep.Drift.Opinion
import Lockstep.Drift.Window

/-! # Drift monitors

A monitor keeps the latest samples of one scope and turns them into an opinion once every so many
ticks. Only samples taken since the last opinion enter the next one.
-/

namespace Lockstep

/-- Collects the samples of one scope. A capacity or an interval of zero counts as one. -/
structure DriftMonitor where
  capacity : Nat
  interval : UInt32
  window : Window DriftSample := .empty
  /-- Ticks closed since the last opinion was due. -/
  elapsed : UInt32 := 0
  deriving Inhabited

namespace DriftMonitor

def new (capacity : Nat) (interval : UInt32) : DriftMonitor :=
  { capacity := max capacity 1, interval := max interval 1 }

/-- Set memory aside for as many samples as a monitor keeps, at sixteen bytes each. -/
def reserve (capacity : Nat) : Except Breakdown Unit := Lockstep.reserve capacity 16

/-- A monitor with memory for its samples. -/
def create (capacity : Nat) (interval : UInt32) : Except Breakdown DriftMonitor := do
  reserve capacity
  return new capacity interval

/-- The samples kept, oldest first. -/
def samples (monitor : DriftMonitor) : List DriftSample := monitor.window.toList

/-- Sample the state of a stream; a full monitor forgets its oldest sample. -/
def record (monitor : DriftMonitor) (tick : Tick) (state : StreamState) : DriftMonitor :=
  { monitor with window := monitor.window.push monitor.capacity ⟨tick, state.fold⟩ }

/-- Close a tick. When an opinion is due and there are samples, they leave as an opinion. -/
def endTick (monitor : DriftMonitor) (scope : ScopeId) (tick : Tick) :
    Option DriftOpinion × DriftMonitor :=
  let elapsed := monitor.elapsed + 1
  if elapsed < monitor.interval then (none, { monitor with elapsed })
  else if monitor.window.isEmpty then (none, { monitor with elapsed := 0 })
  else (some ⟨scope, tick, monitor.samples⟩, { monitor with elapsed := 0, window := .empty })

end DriftMonitor

end Lockstep
