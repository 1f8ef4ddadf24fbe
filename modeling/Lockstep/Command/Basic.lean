import Lockstep.Format.Bytes
import Lockstep.Ident
import Lockstep.Reported

/-! # Commands

A command asks a handler to change the world of one scope. It is captured without a tick, and becomes
due once the authority has stamped it with one.
-/

namespace Lockstep

/-- A captured command that has no tick yet. -/
structure PendingCommand where
  handler : HandlerId
  scope : ScopeId
  payload : Bytes
  deriving DecidableEq, Repr

/-- A command together with the tick at which every peer runs it. -/
structure Command where
  handler : HandlerId
  tick : Tick
  scope : ScopeId
  payload : Bytes
  deriving DecidableEq, Repr

/-- Fix the tick at which a command runs. -/
def PendingCommand.stamp (pending : PendingCommand) (tick : Tick) : Command :=
  { handler := pending.handler, tick, scope := pending.scope, payload := pending.payload }

/-- Why a host refuses a command. -/
inductive InvokeError where
  | rejected (reason : String)
  | invalidState (reason : String)
  | badArgument (index : Nat)
  deriving DecidableEq, Repr

/-- The text shown for a refusal. -/
def InvokeError.message : InvokeError → String
  | rejected reason => "operation rejected: " ++ reason
  | invalidState reason => "invalid target state: " ++ reason
  | badArgument index => s!"argument {index} has unexpected shape"

/-- The name of a refusal in reports. -/
def InvokeError.kind : InvokeError → String
  | rejected _ => "Rejected"
  | invalidState _ => "InvalidState"
  | badArgument _ => "BadArgument"

instance : Reported InvokeError := ⟨InvokeError.kind, InvokeError.message⟩

/-- Why a message did not reach a peer. -/
inductive TransportError where
  | disconnected
  | queueFull
  | malformed
  deriving DecidableEq, Repr

/-- The text shown for a message that did not arrive. -/
def TransportError.message : TransportError → String
  | disconnected => "transport disconnected"
  | queueFull => "inbound queue full"
  | malformed => "malformed delivery"

/-- The name of a transport error in reports. -/
def TransportError.kind : TransportError → String
  | disconnected => "Disconnected"
  | queueFull => "QueueFull"
  | malformed => "Malformed"

instance : Reported TransportError := ⟨TransportError.kind, TransportError.message⟩

end Lockstep
