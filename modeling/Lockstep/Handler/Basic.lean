import Lockstep.Config
import Lockstep.Handler.Environment
import Lockstep.Handler.Host

/-! # Handlers

A handler is a way in which commands change the world: it sets a field of a target, performs an
operation on a target with arguments, or runs a closure with its variables.
-/

namespace Lockstep

/-- What all handlers have. -/
structure HandlerMeta where
  version : UInt16 := 1
  flags : ContextFlags := {}
  /-- Runs in debug mode only. -/
  debugOnly : Bool := false
  deriving DecidableEq, Repr, Inhabited

/-- Reads a field of a target, if it is there. -/
abbrev Getter (W : Type) := W → ScopeId → Value → Option Int32 → Option Value

/-- Writes a field of a target. -/
abbrev Setter (W : Type) := ScopeId → Value → Option Int32 → Value → EStateM HostFault W Unit

/-- Runs before or after a field is set. -/
abbrev Hook (W : Type) := CallContext → Value → Host Breakdown W Unit

/-- Sets a field of a target. -/
structure FieldHandler (W : Type) where
  name : String
  target : Ty
  value : Ty
  indexed : Bool := false
  get : Getter W
  set : Setter W
  preHook : Option (Hook W) := none
  postHook : Option (Hook W) := none
  /-- How long a change waits, where it differs from the peer's setting. -/
  flushInterval : Option FlushInterval := none
  info : HandlerMeta := {}

/-- Performs an operation on a target. -/
structure OperationHandler (W : Type) where
  name : String
  target : Ty
  arguments : List Ty
  invoke : CallContext → Value → List Value → Host HostFault W Unit
  /-- Not run when an argument no longer exists. -/
  cancelIfAbsent : Bool := false
  /-- Not run when nothing is selected. -/
  cancelIfNoSelection : Bool := false
  /-- The least time in milliseconds between two captures for one target. -/
  minInterval : Option Nat := none
  info : HandlerMeta := {}

/-- Runs a closure. -/
structure ClosureHandler (W : Type) where
  shape : ClosureShape
  operation : String
  invoke : CallContext → Environment → Host HostFault W Unit
  info : HandlerMeta := {}

/-- A closure's handler is named for its shape and its operation. -/
def ClosureHandler.name {W : Type} (handler : ClosureHandler W) : String :=
  handler.shape.name ++ "." ++ handler.operation

/-- A way in which commands change the world. -/
inductive Handler (W : Type) where
  | field (handler : FieldHandler W)
  | operation (handler : OperationHandler W)
  | closure (handler : ClosureHandler W)

namespace Handler

variable {W : Type}

def name : Handler W → String
  | field handler => handler.name
  | operation handler => handler.name
  | closure handler => handler.name

/-- The declared properties. Whoever depends on the selection needs it to travel. -/
def info : Handler W → HandlerMeta
  | field handler => handler.info
  | operation handler =>
    if handler.cancelIfNoSelection then
      { handler.info with flags := handler.info.flags.union { selection := true } }
    else handler.info
  | closure handler => handler.info

def kind : Handler W → String
  | field _ => "field"
  | operation _ => "operation"
  | closure _ => "closure"

/-- The types of all that travels with a command. -/
def types : Handler W → List Ty
  | field handler => [handler.target, handler.value]
  | operation handler => handler.target :: handler.arguments
  | closure handler => handler.shape.fields.map (·.2)

end Handler

end Lockstep
