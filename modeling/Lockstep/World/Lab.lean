import Lockstep.Handler.Basic
import Lockstep.Schema.Json

/-! # Laboratory worlds

A world for trying out handlers. It holds cells, one for each field, scope, target and index; its
operations and closures follow scripts; and it keeps a log of what was done to it. Its handlers are
made from descriptions, and a handler's slot is its place among them.
-/

namespace Lockstep

/-- The value of a field of a target. Targets are told apart by their bits. -/
structure LabCell where
  slot : Nat
  scope : ScopeId
  target : Value
  index : Option Int32
  value : Value
  deriving Repr

/-- What a script was called with. -/
inductive LabCall where
  | operation (target : Value) (arguments : List Value)
  /-- The variables in the order of the shape, and how many the environment held. -/
  | closure (bindings : List (String × Value)) (size : Nat)
  deriving Repr

/-- An entry of the log. -/
inductive LabEvent where
  | set (slot : Nat) (scope : ScopeId) (target : Value) (index : Option Int32) (value : Value)
  | preHook (slot : Nat) (tick : Tick) (target : Value) (word : UInt32)
  | postHook (slot : Nat) (tick : Tick) (target : Value) (word : UInt32)
  | call (slot : Nat) (context : CallContext) (call : LabCall)
  | ambient (slot : Nat) (ambient : Ambient)
  | drewU32 (word : UInt32)
  | drewU64 (word : UInt64)
  | drewInRange (word : UInt32)
  deriving Repr

/-- A laboratory world. The log has its latest entry first. -/
structure Lab where
  cells : List LabCell := []
  log : List LabEvent := []
  resolver : Resolver := .everything
  /-- How many words a scope draws at the end of a tick. -/
  tickDraws : Nat := 0

namespace Lab

def isAt (slot : Nat) (scope : ScopeId) (target : Value) (index : Option Int32) (cell : LabCell) : Bool :=
  cell.slot == slot && cell.scope == scope && cell.target.identical target && cell.index == index

/-- The value in a cell. -/
def cell? (lab : Lab) (slot : Nat) (scope : ScopeId) (target : Value) (index : Option Int32) : Option Value :=
  (lab.cells.find? (isAt slot scope target index)).map (·.value)

/-- Empty a cell. -/
def clearCell (slot : Nat) (scope : ScopeId) (target : Value) (index : Option Int32) (lab : Lab) : Lab :=
  { lab with cells := lab.cells.filter (!isAt slot scope target index ·) }

/-- Fill a cell. -/
def setCell (cell : LabCell) (lab : Lab) : Lab :=
  { lab with cells := cell :: (lab.clearCell cell.slot cell.scope cell.target cell.index).cells }

/-- The cells by slot, by the texts of their scopes and targets, and by index, where having none comes
first. -/
def sortedCells (lab : Lab) : List LabCell :=
  lab.cells.mergeSort fun a b => (place a b).isLE
where
  /-- How the places of two cells compare. -/
  place (a b : LabCell) : Ordering :=
    (compare a.slot b.slot).then <| (compare a.scope.json b.scope.json).then <|
      (compare a.target.json b.target.json).then (compare a.index b.index)

/-- Add an entry to the log. -/
def note (event : LabEvent) (lab : Lab) : Lab := { lab with log := event :: lab.log }

/-- The log in order, and the world with an empty one. -/
def drainLog (lab : Lab) : List LabEvent × Lab := (lab.log.reverse, { lab with log := [] })

/-- Draw a number of words and drop them. -/
def skipWords : Nat → RandomStream → RandomStream
  | 0, stream => stream
  | count + 1, stream => skipWords count stream.nextU32.2

instance : World Lab where
  resolver lab := lab.resolver
  tickScope _ state := { state with stream := skipWords state.world.tickDraws state.stream }

end Lab

/-- One action of a script. -/
inductive LabAction where
  | logCall
  | logAmbient
  | setAmbient (ambient : Ambient)
  | drawU32
  | drawU64
  | drawInRange (lo hi : UInt32)
  | refuse (error : InvokeError)
  | breakDown (breakdown : Breakdown)
  deriving Repr

namespace LabAction

/-- Add an entry to the log of the world. -/
def note {ε : Type} (event : LabEvent) : Host ε Lab Unit := Host.onWorld (modify (Lab.note event))

/-- Perform an action for the handler of a slot. -/
def run (slot : Nat) (context : CallContext) (call : LabCall) : LabAction → Host HostFault Lab Unit
  | logCall => note (.call slot context call)
  | logAmbient => do note (.ambient slot (← get).ambient)
  | setAmbient ambient => modify fun state => { state with ambient }
  | drawU32 => do note (.drewU32 (← Host.draw RandomStream.nextU32))
  | drawU64 => do note (.drewU64 (← Host.draw RandomStream.nextU64))
  | drawInRange lo hi => do note (.drewInRange (← Host.draw (RandomStream.nextInRange lo hi)))
  | refuse error => throw (.refused error)
  | breakDown breakdown => throw (.brokeDown breakdown)

/-- Perform actions one after another, up to the first that fails. -/
def runAll (slot : Nat) (context : CallContext) (call : LabCall) (script : List LabAction) :
    Host HostFault Lab Unit :=
  script.forM (run slot context call)

end LabAction

/-- The description of a field. -/
structure LabField where
  name : String
  target : Ty
  value : Ty
  indexed : Bool := false
  preHook : Bool := false
  postHook : Bool := false
  flushInterval : Option FlushInterval := none
  info : HandlerMeta := {}
  /-- The value of an empty cell. -/
  default? : Option Value := none
  /-- Values that the field refuses. -/
  rejected : List Value := []
  readOnly : Bool := false
  deriving Repr

namespace LabField

def get (field : LabField) (slot : Nat) : Getter Lab := fun lab scope target index =>
  match lab.cell? slot scope target index with
  | some value => some value
  | none => field.default?

def set (field : LabField) (slot : Nat) : Setter Lab := fun scope target index value =>
  if field.readOnly then throw (.refused (.invalidState "read only"))
  else if field.rejected.any (value.equal ·) then throw (.refused (.rejected (value.describe ++ " refused")))
  else modify fun lab =>
    (lab.note (.set slot scope target index value)).setCell { slot, scope, target, index, value }

/-- Draws a word before the field is set. -/
def drawBefore (slot : Nat) : Hook Lab := fun context target => do
  LabAction.note (.preHook slot context.tick target (← Host.draw RandomStream.nextU32))

/-- Draws a word below a thousand after the field is set. -/
def drawAfter (slot : Nat) : Hook Lab := fun context target => do
  LabAction.note (.postHook slot context.tick target (← Host.draw (RandomStream.nextInRange 0 1000)))

def handler (field : LabField) (slot : Nat) : FieldHandler Lab where
  name := field.name
  target := field.target
  value := field.value
  indexed := field.indexed
  get := field.get slot
  set := field.set slot
  preHook := if field.preHook then some (drawBefore slot) else none
  postHook := if field.postHook then some (drawAfter slot) else none
  flushInterval := field.flushInterval
  info := field.info

end LabField

/-- The description of an operation. -/
structure LabOperation where
  name : String
  target : Ty
  arguments : List Ty
  cancelIfAbsent : Bool := false
  cancelIfNoSelection : Bool := false
  minInterval : Option Nat := none
  info : HandlerMeta := {}
  script : List LabAction
  deriving Repr

def LabOperation.handler (operation : LabOperation) (slot : Nat) : OperationHandler Lab where
  name := operation.name
  target := operation.target
  arguments := operation.arguments
  invoke context target arguments :=
    LabAction.runAll slot context (.operation target arguments) operation.script
  cancelIfAbsent := operation.cancelIfAbsent
  cancelIfNoSelection := operation.cancelIfNoSelection
  minInterval := operation.minInterval
  info := operation.info

/-- The description of a closure. -/
structure LabClosure where
  shape : ClosureShape
  operation : String
  info : HandlerMeta := {}
  script : List LabAction
  deriving Repr

def LabClosure.handler (closure : LabClosure) (slot : Nat) : ClosureHandler Lab where
  shape := closure.shape
  operation := closure.operation
  invoke context environment :=
    let bindings := closure.shape.fields.map fun entry =>
      (entry.1, (environment.get? entry.1).getD .null)
    LabAction.runAll slot context (.closure bindings environment.size) closure.script
  info := closure.info

/-- The description of a handler. -/
inductive LabHandler where
  | field (field : LabField)
  | operation (operation : LabOperation)
  | closure (closure : LabClosure)
  deriving Repr

def LabHandler.handler (slot : Nat) : LabHandler → Handler Lab
  | .field described => .field (described.handler slot)
  | .operation described => .operation (described.handler slot)
  | .closure described => .closure (described.handler slot)

/-- The handlers of descriptions, each in the slot of its place. -/
def Lab.handlers (descriptions : List LabHandler) : List (Handler Lab) :=
  descriptions.zipIdx.map fun entry => entry.1.handler entry.2

end Lockstep
