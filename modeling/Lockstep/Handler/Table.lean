import Lockstep.Handler.Basic
import Lockstep.Handler.Error
import Lockstep.NameOrder

/-! # Handler tables

A table numbers the handlers of a program by the order of their names, so the numbers do not depend on
the order in which the handlers were registered. Whoever registered a handler keeps a handle on it:
its place in the order of registration.
-/

namespace Lockstep

/-- A handler's place in the order of registration. -/
abbrev Handle := Nat

/-- The handlers of a program, in name order, with the types that they use. -/
structure HandlerTable (W : Type) where
  registry : Registry
  /-- The type of what can be selected. -/
  selectionType : Ty
  handlers : List (Handler W)
  /-- The number of each handler, in the order of registration. -/
  slots : List HandlerId

namespace HandlerTable

variable {W : Type}

/-- All types that a handler uses have to be declared, and who needs the selection needs its type. -/
def checkHandler (registry : Registry) (selectionType? : Option Ty) (handler : Handler W) :
    Except RegistrationError Unit := do
  handler.types.forM fun type => (registry.check type).mapError (.unknownType handler.name)
  if handler.info.flags.selection then
    match selectionType? with
    | none => throw (.noSelectionType handler.name)
    | some type => (registry.check type).mapError (.unknownType handler.name)

/-- Handlers with their places, in name order. -/
def nameOrder (handlers : List (Handler W)) : List (Handler W × Nat) :=
  sortByName (·.1.name) handlers.zipIdx

/-- The first name that stands next to itself. -/
def firstDuplicate : List String → Option String
  | a :: b :: rest => if a = b then some a else firstDuplicate (b :: rest)
  | _ => none

/-- Build a table from handlers in the order of registration. -/
def build (registry : Registry) (selectionType? : Option Ty) (handlers : List (Handler W)) :
    Except RegistrationError (HandlerTable W) := do
  if UInt32.size ≤ handlers.length then throw (.tooManyHandlers handlers.length)
  handlers.forM (checkHandler registry selectionType?)
  let ordered := nameOrder handlers
  match firstDuplicate (ordered.map (·.1.name)) with
  | some name => throw (.duplicateName name)
  | none =>
    return {
      registry
      selectionType := selectionType?.getD .unit
      handlers := ordered.map (·.1)
      slots := (List.range handlers.length).map fun place =>
        UInt32.ofNat (ordered.findIdx fun entry => entry.2 == place) }

def size (table : HandlerTable W) : Nat := table.handlers.length

/-- The handler of a number. -/
def get? (table : HandlerTable W) (id : HandlerId) : Option (Handler W) := table.handlers[id.toNat]?

/-- The number of the handler of a name. -/
def idOfName? (table : HandlerTable W) (name : String) : Option HandlerId :=
  (searchByName (·.name) table.handlers name).map UInt32.ofNat

/-- The handle on the handler of a name. -/
def handleOf? (table : HandlerTable W) (name : String) : Option Handle :=
  (table.idOfName? name).bind fun id => table.slots.findIdx? (· == id)

/-- What a handler is called in messages. -/
def nameOf (table : HandlerTable W) (id : HandlerId) : String :=
  match table.get? id with
  | some handler => handler.name
  | none => "<unknown>"

/-- The bytes by which a handler enters the digest of its table. -/
def handlerBytes (id : Nat) (handler : Handler W) : Bytes :=
  .ofUInt32 (UInt32.ofNat id) ++ (Digest.textBytes handler.name ++ (Digest.textBytes handler.kind ++
    (.ofUInt32 handler.info.version.toUInt32 ++ [handler.info.flags.bits, handler.info.debugOnly.toUInt8])))

/-- The bytes whose digest is the fingerprint: that of the types, then the handlers by number. -/
def digestBytes (table : HandlerTable W) : Bytes :=
  .ofUInt64 table.registry.fingerprint ++
    (table.handlers.zipIdx.flatMap fun entry => handlerBytes entry.2 entry.1)

/-- A number by which peers notice that their tables differ. -/
def fingerprint (table : HandlerTable W) : Digest := Digest.ofBytes table.digestBytes

/-- The number behind a handle. -/
def slot (table : HandlerTable W) (handle : Handle) (expected : String) : Except CaptureError HandlerId :=
  match table.slots[handle]? with
  | some id => .ok id
  | none => .error (.wrongHandlerKind 0xffffffff expected)

/-- The field handler behind a handle. -/
def field (table : HandlerTable W) (handle : Handle) : Except CaptureError (HandlerId × FieldHandler W) := do
  let id ← table.slot handle "field"
  match table.get? id with
  | some (.field handler) => return (id, handler)
  | _ => throw (.wrongHandlerKind id "field")

/-- The operation handler behind a handle. -/
def operation (table : HandlerTable W) (handle : Handle) :
    Except CaptureError (HandlerId × OperationHandler W) := do
  let id ← table.slot handle "operation"
  match table.get? id with
  | some (.operation handler) => return (id, handler)
  | _ => throw (.wrongHandlerKind id "operation")

/-- The closure handler behind a handle. -/
def closure (table : HandlerTable W) (handle : Handle) :
    Except CaptureError (HandlerId × ClosureHandler W) := do
  let id ← table.slot handle "closure"
  match table.get? id with
  | some (.closure handler) => return (id, handler)
  | _ => throw (.wrongHandlerKind id "closure")

end HandlerTable

end Lockstep
