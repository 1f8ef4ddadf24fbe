import Lockstep.Handler.Apply
import Lockstep.Handler.Capture

/-! # Benches

A bench tries out the handlers of a table on a world that has no ticks of its own. It remembers the
latest command that was written on it, which is the one that it applies unless it is given another.
-/

namespace Lockstep

/-- A table of handlers, and what they are tried out on. -/
structure Bench (W : Type) where
  table : HandlerTable W
  world : W
  stream : RandomStream
  debugMode : Bool := false
  throttle : Throttle := {}
  latest? : Option PendingCommand := none

namespace Bench

variable {W : Type}

/-- Remember a command that could be written. -/
def remember (bench : Bench W) (written : Except CaptureError PendingCommand) :
    Except CaptureError PendingCommand × Bench W :=
  (written, { bench with latest? := written.toOption.or bench.latest? })

/-- Capture an operation, unless it is throttled. The clock of a bench stands still. -/
def captureOperation (bench : Bench W) (handle : Handle) (scope : ScopeId) (ambient : Ambient)
    (target : Value) (arguments : List Value) : Except CaptureError (Option PendingCommand) × Bench W :=
  match bench.table.captureOperation bench.debugMode bench.throttle 0 handle scope ambient target arguments with
  | .ok (pending?, throttle) => (.ok pending?, { bench with throttle })
  | .error error => (.error error, bench)

/-- Run a command under the ambient input of a caller. Beside the outcome stands the ambient input that the
caller is left with. -/
def run [World W] (bench : Bench W) (ambient : Ambient) (tick : Tick) (debugMode : Bool)
    (command : PendingCommand) : Except ApplyFault Applied × Ambient × Bench W :=
  let context := { scope := command.scope, tick, debugMode }
  let before := { world := bench.world, stream := bench.stream, ambient }
  match bench.table.apply context command.handler command.payload before with
  | .ok applied after =>
    (.ok applied, after.ambient, { bench with world := after.world, stream := after.stream })
  | .error fault after =>
    (.error fault, after.ambient, { bench with world := after.world, stream := after.stream })

end Bench

end Lockstep
