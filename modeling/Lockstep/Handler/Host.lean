import Lockstep.Breakdown
import Lockstep.Command.Basic
import Lockstep.Handler.Ambient
import Lockstep.Random.Stream

/-! # Hosts

A host is the program whose world is kept in step. Its callbacks act on the world, on the random stream
of the scope they run for, and on the ambient input of the command at hand. A callback may refuse, and
it may break down; what it has changed by then stays changed, but never the ambient input of whoever
called it (`withAmbient`).
-/

namespace Lockstep

/-- Why a callback did not finish. -/
inductive HostFault where
  | refused (error : InvokeError)
  | brokeDown (breakdown : Breakdown)
  deriving DecidableEq, Repr

instance : Reported HostFault where
  kind
    | .refused error => error.kind
    | .brokeDown _ => "Panic"
  message
    | .refused error => error.message
    | .brokeDown breakdown => breakdown.report

/-- What a callback may look at: the scope and tick it runs for, and the debug mode. A callback cannot
change any of them here. A host that writes to the context it is handed, so that later callbacks in the
same tick see another scope, tick or debug mode, is not covered. -/
structure CallContext where
  scope : ScopeId
  tick : Tick
  debugMode : Bool := false
  deriving DecidableEq, Repr

/-- What a callback may change. -/
structure HostState (W : Type) where
  world : W
  stream : RandomStream
  ambient : Ambient := {}

/-- A callback into a host. What it changed before it failed stays changed. -/
abbrev Host (ε W α : Type) := EStateM ε (HostState W) α

namespace Host

variable {ε W α : Type}

/-- Run with other ambient input, and put the caller's back at the end, however the run ends. -/
def withAmbient (ambient : Ambient) (body : Host ε W α) : Host ε W α := fun state =>
  match body { state with ambient } with
  | .ok value after => .ok value { after with ambient := state.ambient }
  | .error error after => .error error { after with ambient := state.ambient }

/-- Draw from the stream. -/
def draw (next : RandomStream → α × RandomStream) : Host ε W α := fun state =>
  let (value, stream) := next state.stream
  .ok value { state with stream }

/-- Act on the world alone. -/
def onWorld (action : EStateM ε W α) : Host ε W α := fun state =>
  match action state.world with
  | .ok value world => .ok value { state with world }
  | .error error world => .error error { state with world }

/-- A callback that cannot refuse, among those that can. -/
def unrefusable (body : Host Breakdown W α) : Host HostFault W α := fun state =>
  match body state with
  | .ok value after => .ok value after
  | .error breakdown after => .error (.brokeDown breakdown) after

end Host

/-- The world of a host: what exists in it, and what happens in it besides commands. -/
class World (W : Type) where
  /-- What references in commands may refer to. -/
  resolver : W → Resolver
  /-- What a scope does at the end of each of its ticks. -/
  tickScope : CallContext → HostState W → HostState W
  /-- What happens when a scope is taken away. -/
  scopeRemoved : ScopeId → W → W := fun _ world => world

end Lockstep
