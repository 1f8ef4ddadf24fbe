import Lockstep.Command.Basic
import Lockstep.Format.Decoder

/-! # Command frames

A stamped command is written as handler, tick, scope and payload, the payload after its length. A
pending command is its handler followed by the bare payload: scope and tick come with the delivery.
-/

namespace Lockstep

namespace Decoder

/-- A scope as a signed word. -/
def scope : Decoder FormatError ScopeId := do
  let raw ← int32
  match ScopeId.ofWire? raw with
  | some scope => pure scope
  | none => throw (.invalidScope raw)

/-- One stamped command. -/
def command : Decoder FormatError Command := do
  let handler ← uint32
  let tick ← uint32
  let scope ← scope
  let payload ← blob
  return { handler, tick, scope, payload }

end Decoder

namespace Command

/-- The frame of a command. -/
def encode (command : Command) : Except FormatError Bytes := do
  let payload ← Bytes.ofBlob? command.payload
  return .ofUInt32 command.handler ++ (.ofUInt32 command.tick ++ (.ofInt32 command.scope.toWire ++ payload))

/-- Read a frame that fills the whole input. -/
def decode (input : Bytes) : Except FormatError Command := Decoder.command.decode input

/-- Read the frames of an input one after another until it is used up or one is bad, each with the
bytes left after it. -/
def decodeAll (input : Bytes) : List (Except FormatError Command × Bytes) :=
  go input.length input
where
  go : Nat → Bytes → List (Except FormatError Command × Bytes)
    | 0, _ => []
    | fuel + 1, input =>
      if input.isEmpty then []
      else match Decoder.command input with
        | .ok command rest => (.ok command, rest) :: go fuel rest
        | .error error rest => [(.error error, rest)]

end Command

namespace PendingCommand

/-- What a peer sends to the authority. -/
def encode (pending : PendingCommand) : Bytes := .ofUInt32 pending.handler ++ pending.payload

end PendingCommand

/-- The command that a delivery brings: the scope and the tick come beside the bytes. -/
def Command.ofDelivery (scope : ScopeId) (tick : Tick) (input : Bytes) : Except FormatError Command :=
  Decoder.outcome (do
    let handler ← Decoder.uint32
    let payload ← Decoder.remainder
    return { handler, tick, scope, payload }) input

end Lockstep
