import Lockstep.Breakdown
import Lockstep.Command.Frame
import Lockstep.Drift.Opinion

/-! # Messages between peers and the authority

What reaches a peer waits in an inbox of limited size until the peer looks into it. A message that
finds the inbox full, or its peer gone, is lost, and its sender learns why.
-/

namespace Lockstep

/-- A message to a peer. -/
inductive Inbound where
  | command (command : Command)
  /-- The scopes may simulate up to this tick. -/
  | tickLimit (tick : Tick)
  | opinion (peer : PeerId) (bytes : Bytes)
  | diverged (divergence : Divergence)
  deriving DecidableEq, Repr

/-- A message from a peer. -/
inductive Outbound where
  /-- A captured command, which goes out without its scope and still has no tick. -/
  | command (scope : ScopeId) (bytes : Bytes)
  | opinion (bytes : Bytes)
  deriving DecidableEq, Repr

namespace Outbound

/-- The commands among messages. -/
def commands (messages : List Outbound) : List (ScopeId × Bytes) :=
  messages.filterMap fun
    | .command scope bytes => some (scope, bytes)
    | .opinion _ => none

/-- The opinions among messages. -/
def opinions (messages : List Outbound) : List Bytes :=
  messages.filterMap fun
    | .command _ _ => none
    | .opinion bytes => some bytes

end Outbound

/-- The message of a captured command. -/
def PendingCommand.message (pending : PendingCommand) : Outbound := .command pending.scope pending.encode

/-- The message that delivers a command, read from the bytes its sender wrote. -/
def Inbound.ofDelivery (scope : ScopeId) (tick : Tick) (bytes : Bytes) : Except TransportError Inbound :=
  match Command.ofDelivery scope tick bytes with
  | .ok delivered => .ok (.command delivered)
  | .error _ => .error .malformed

/-- Messages waiting for a peer, in the order of their arrival. -/
structure Inbox where
  capacity : Nat
  /-- There is no peer any more. -/
  isClosed : Bool := false
  messages : List Inbound := []
  deriving DecidableEq, Repr, Inhabited

/-- An empty inbox, with a slot of memory for each message that it may hold. Slots are counted in 64-bit
words, up to twice the least power of two above their number. -/
def Inbox.create (capacity : Nat) : Except Breakdown Inbox := do
  if UInt64.size / 4 ≤ capacity then throw .tooManySlots
  reserve capacity slotSize
  return { capacity }
where
  /-- How many bytes a slot takes. -/
  slotSize : Nat := 48

/-- Add a message. -/
def Inbox.send (inbox : Inbox) (message : Inbound) : Except TransportError Inbox :=
  if inbox.isClosed then .error .disconnected
  else if inbox.messages.length < inbox.capacity then
    .ok { inbox with messages := inbox.messages ++ [message] }
  else .error .queueFull

/-- Add a message if it was read and there is room; otherwise it is lost. -/
def Inbox.post (inbox : Inbox) (message : Except TransportError Inbound) : Inbox :=
  match message >>= inbox.send with
  | .ok inbox => inbox
  | .error _ => inbox

end Lockstep
