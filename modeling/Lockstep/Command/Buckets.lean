import Lockstep.Command.Basic
import Lockstep.SortedMap

/-! # Commands in buckets

Commands that wait for their tick, kept in a bucket for each tick and counted on the side. Taking what is
due splits the buckets behind a tick, and behind the last tick there is nothing to split.
-/

namespace Lockstep

/-- Commands taken for a tick. -/
structure DueCommands where
  commands : List Command := []
  /-- How many of them were stamped for an earlier tick. -/
  stale : Nat := 0
  deriving DecidableEq, Repr

/-- Commands waiting for their tick, by tick and within a tick in the order of their arrival. -/
structure CommandBuckets where
  byTick : SortedMap Tick (List Command) := .empty
  /-- The number of commands, kept up to date by itself. -/
  count : Nat := 0

instance : Inhabited CommandBuckets := ⟨{}⟩

namespace CommandBuckets

/-- Take in a command, behind those that are stamped for its tick. -/
def push (buckets : CommandBuckets) (command : Command) : CommandBuckets where
  byTick :=
    let bucket := (buckets.byTick.get? command.tick).getD []
    buckets.byTick.insert command.tick (bucket ++ [command])
  count := buckets.count + 1

def size (buckets : CommandBuckets) : Nat := buckets.count

def isEmpty (buckets : CommandBuckets) : Bool := buckets.count == 0

/-- The earliest tick that has a bucket. -/
def nextDue? (buckets : CommandBuckets) : Option Tick := buckets.byTick.keys.head?

/-- The tick behind a tick, if that is not the last one. -/
def following? (tick : Tick) : Option Tick :=
  if tick.toNat + 1 < UInt32.size then some (tick + 1) else none

/-- The buckets up to a tick, and those behind it. -/
def splitBehind (byTick : SortedMap Tick (List Command)) (tick : Tick) :
    SortedMap Tick (List Command) × SortedMap Tick (List Command) :=
  match following? tick with
  | some next => (byTick.filter fun stamp _ => stamp < next, byTick.filter fun stamp _ => next ≤ stamp)
  | none => (byTick, .empty)

end CommandBuckets

/-- Add the commands of a bucket to those taken for a tick. -/
def DueCommands.takeBucket (tick : Tick) (due : DueCommands) (bucket : Tick × List Command) :
    DueCommands where
  commands := due.commands ++ bucket.2
  stale := if bucket.1 < tick then due.stale + bucket.2.length else due.stale

namespace CommandBuckets

/-- Take every command stamped for a tick or earlier. -/
def takeDue (buckets : CommandBuckets) (tick : Tick) : DueCommands × CommandBuckets :=
  let (before, behind) := splitBehind buckets.byTick tick
  let due := before.entries.foldl (DueCommands.takeBucket tick) {}
  (due, { byTick := behind, count := buckets.count - due.commands.length })

/-- Drop everything. -/
def clear (_ : CommandBuckets) : CommandBuckets := { byTick := .empty, count := 0 }

end CommandBuckets

end Lockstep
