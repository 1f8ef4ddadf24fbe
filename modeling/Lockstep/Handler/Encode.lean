import Lockstep.Handler.Table

/-! # Capturing commands

The payload of a command is the ambient input that its handler needs, and then what the handler works
on. It is written at the time of capture; what cannot be written is refused there.
-/

namespace Lockstep

namespace HandlerTable

variable {W : Type}

/-- The payload of a command: the ambient input, then the rest. -/
def encodeCall (table : HandlerTable W) (id : HandlerId) (handler : Handler W) (scope : ScopeId)
    (ambient : Ambient) (call : Except EncodeError Bytes) : Except CaptureError PendingCommand :=
  let payload : Except EncodeError Bytes := do
    let ambient ← ambient.encode table.registry handler.info.flags table.selectionType
    let call ← call
    return ambient ++ call
  match payload with
  | .ok payload => .ok { handler := id, scope, payload }
  | .error source => .error (.encode handler.name source)

/-- Values one after another, each at its own type. -/
def encodeAll (registry : Registry) (values : List (Ty × Value)) : Except EncodeError Bytes := do
  let chunks ← values.mapM fun entry => registry.encode entry.1 entry.2
  return chunks.flatten

/-- Target, index if the field has one, and value. -/
def encodeFieldCall (registry : Registry) (handler : FieldHandler W) (target : Value)
    (index : Option Int32) (value : Value) : Except EncodeError Bytes := do
  let target ← registry.encode handler.target target
  let value ← registry.encode handler.value value
  return target ++ ((if handler.indexed then Bytes.ofInt32 (index.getD 0) else []) ++ value)

/-- The command that sets a field. -/
def encodeField (table : HandlerTable W) (handle : Handle) (scope : ScopeId) (ambient : Ambient)
    (target : Value) (index : Option Int32) (value : Value) : Except CaptureError PendingCommand := do
  let (id, handler) ← table.field handle
  table.encodeCall id (.field handler) scope ambient
    (encodeFieldCall table.registry handler target index value)

/-- The command that performs an operation. -/
def encodeOperation (table : HandlerTable W) (handle : Handle) (scope : ScopeId) (ambient : Ambient)
    (target : Value) (arguments : List Value) : Except CaptureError PendingCommand := do
  let (id, handler) ← table.operation handle
  if arguments.length ≠ handler.arguments.length then
    throw (.argumentCount handler.name handler.arguments.length arguments.length)
  table.encodeCall id (.operation handler) scope ambient
    (encodeAll table.registry ((handler.target, target) :: handler.arguments.zip arguments))

/-- The variables of a shape with their values. -/
def captured (handler : ClosureHandler W) (environment : Environment) :
    Except CaptureError (List (Ty × Value)) :=
  handler.shape.fields.mapM fun entry =>
    match environment.get? entry.1 with
    | some value => .ok (entry.2, value)
    | none => .error (.missingClosurePath handler.name entry.1)

/-- The command that runs a closure. -/
def encodeClosure (table : HandlerTable W) (handle : Handle) (scope : ScopeId) (ambient : Ambient)
    (environment : Environment) : Except CaptureError PendingCommand := do
  let (id, handler) ← table.closure handle
  let values ← captured handler environment
  table.encodeCall id (.closure handler) scope ambient (encodeAll table.registry values)

end HandlerTable

end Lockstep
