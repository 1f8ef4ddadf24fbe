import Lockstep.Handler.Table

/-! # Applying commands

A command that arrives is read against the world of the peer, and then run by its handler under the
ambient input that it brings. A command whose target is gone is passed over; one that cannot be read,
or that its handler refuses, fails. Neither has an effect on the commands after it beyond what the
handler did to the world and the stream.
-/

namespace Lockstep

/-- Why a command was passed over. -/
inductive SkipReason where
  | targetAbsent
  | argumentAbsent (index : Nat)
  | noSelection
  | debugDisabled
  deriving DecidableEq, Repr

/-- The name of a reason in reports. -/
def SkipReason.name : SkipReason → String
  | targetAbsent => "target_absent"
  | argumentAbsent _ => "argument_absent"
  | noSelection => "no_selection"
  | debugDisabled => "debug_disabled"

/-- What became of a command that did not fail. -/
inductive Applied where
  | executed
  | skipped (reason : SkipReason)
  deriving DecidableEq, Repr

/-- Why a command did not come to its end: it failed, or the host broke down. -/
inductive ApplyFault where
  | failed (error : CommandError)
  | brokeDown (breakdown : Breakdown)
  deriving DecidableEq, Repr

instance : Reported ApplyFault where
  kind
    | .failed error => error.kind
    | .brokeDown _ => "Panic"
  message
    | .failed error => error.message
    | .brokeDown breakdown => breakdown.report

/-- Something that was referred to is gone, though the type does not allow for that. -/
def isAbsent (type : Ty) (value : Value) : Bool := value.isNull && !type.isNullable

/-- What a command sets. -/
structure FieldCall where
  target : Value
  index : Option Int32
  value : Value
  deriving Repr

/-- What a command operates on. -/
structure OperationCall where
  target : Value
  arguments : List Value
  deriving Repr

/-- Reads one value of a payload. -/
abbrev ValueReader := Ty → Decoder DecodeError Value

/-- Read values one after another, each at its own type. -/
def decodeAll (read : ValueReader) : List Ty → Decoder DecodeError (List Value)
  | [] => return []
  | type :: types => do
    let value ← read type
    let values ← decodeAll read types
    return value :: values

namespace FieldHandler

variable {W : Type}

/-- Read what a command sets. -/
def decodeCall (handler : FieldHandler W) (read : ValueReader) : Decoder DecodeError FieldCall := do
  let target ← read handler.target
  let index ← if handler.indexed then some <$> liftM Decoder.int32 else pure none
  let value ← read handler.value
  return { target, index, value }

/-- Run an optional hook. -/
def runHook (hook? : Option (Hook W)) (context : CallContext) (target : Value) : Host HostFault W Unit :=
  match hook? with
  | some hook => Host.unrefusable (hook context target)
  | none => pure ()

/-- Set the field, between the hooks. -/
def run (handler : FieldHandler W) (context : CallContext) (call : FieldCall) : Host HostFault W Applied := do
  if isAbsent handler.target call.target then return .skipped .targetAbsent
  runHook handler.preHook context call.target
  Host.onWorld (handler.set context.scope call.target call.index call.value)
  runHook handler.postHook context call.target
  return .executed

end FieldHandler

namespace OperationHandler

variable {W : Type}

/-- Read what a command operates on. -/
def decodeCall (handler : OperationHandler W) (read : ValueReader) : Decoder DecodeError OperationCall := do
  let target ← read handler.target
  let arguments ← decodeAll read handler.arguments
  return { target, arguments }

/-- The place of the first argument that is gone. -/
def absentArgument? (handler : OperationHandler W) (arguments : List Value) : Option Nat :=
  (handler.arguments.zip arguments).findIdx? fun entry => isAbsent entry.1 entry.2

/-- Perform the operation, unless a rule of the handler cancels it. -/
def run (handler : OperationHandler W) (context : CallContext) (call : OperationCall) :
    Host HostFault W Applied := do
  if isAbsent handler.target call.target then return .skipped .targetAbsent
  match if handler.cancelIfAbsent then handler.absentArgument? call.arguments else none with
  | some index => return .skipped (.argumentAbsent index)
  | none =>
    if handler.cancelIfNoSelection && (← get).ambient.selection.isEmpty then return .skipped .noSelection
    handler.invoke context call.target call.arguments
    return .executed

end OperationHandler

namespace ClosureHandler

variable {W : Type}

/-- Read the variables of a closure. -/
def decodeCall (handler : ClosureHandler W) (read : ValueReader) : Decoder DecodeError Environment := do
  let values ← decodeAll read (handler.shape.fields.map (·.2))
  return .ofList ((handler.shape.fields.map (·.1)).zip values)

/-- Run the closure. -/
def run (handler : ClosureHandler W) (context : CallContext) (environment : Environment) :
    Host HostFault W Applied := do
  handler.invoke context environment
  return .executed

end ClosureHandler

namespace HandlerTable

variable {W : Type}

/-- What a fault of the host is for a handler. -/
def faultOf (name : String) : HostFault → ApplyFault
  | .refused error => .failed (.invoke name error)
  | .brokeDown breakdown => .brokeDown breakdown

/-- Read a payload to its end, and run what it asks for under the ambient input it brings. -/
def applyCall {γ : Type} [World W] (table : HandlerTable W) (handler : Handler W) (context : CallContext)
    (wire : WireContext) (payload : Bytes) (decodeCall : ValueReader → Decoder DecodeError γ)
    (run : CallContext → γ → Host HostFault W Applied) : Host ApplyFault W Applied := fun state =>
  let resolver := World.resolver state.world
  let decoder : Decoder DecodeError (Ambient × γ) := do
    let ambient ← Ambient.decode table.registry resolver wire handler.info.flags table.selectionType
    let call ← decodeCall (table.registry.decode resolver wire)
    return (ambient, call)
  match decoder payload with
  | .error source _ => .error (.failed (.decode handler.name source)) state
  | .ok (ambient, call) rest =>
    if rest.isEmpty then
      match Host.withAmbient ambient (run context call) state with
      | .ok applied after => .ok applied after
      | .error fault after => .error (faultOf handler.name fault) after
    else .error (.failed (.trailingBytes handler.name rest.length)) state

/-- Run a command. -/
def apply [World W] (table : HandlerTable W) (context : CallContext) (id : HandlerId) (payload : Bytes) :
    Host ApplyFault W Applied :=
  match table.get? id with
  | none => throw (.failed (.unknownHandler id))
  | some handler =>
    if handler.info.debugOnly && !context.debugMode then return .skipped .debugDisabled
    else
      let wire := ((WireContext.ofScope context.scope).withHandler id).withTick context.tick
      match handler with
      | .field field => table.applyCall handler context wire payload field.decodeCall field.run
      | .operation operation =>
        table.applyCall handler context wire payload operation.decodeCall operation.run
      | .closure closure => table.applyCall handler context wire payload closure.decodeCall closure.run

end HandlerTable

end Lockstep
