import Lockstep.Handler.Table
import Lockstep.World.Colony.Basic

/-! # The handlers of colonies

What a player may change in a colony: a worker's priority and skills, the level of alert, what workers
do, what is traded, drafted, designated and built. A bad argument is named before the worker is looked
for, and what a handler did before it refuses does not occur: each one changes the colony at its end.
-/

namespace Lockstep.Colony

/-- A callback of the colony. -/
abbrev Act (α : Type) := Host HostFault Colony α

/-- Refuse a command. -/
def refuse {σ α : Type} (error : InvokeError) : EStateM HostFault σ α := throw (.refused error)

/-- The answer that has to be there, or a refusal. -/
def require {σ α : Type} (answer? : Option α) (error : InvokeError) : EStateM HostFault σ α :=
  match answer? with
  | some answer => pure answer
  | none => refuse error

/-- The worker of a target, with his number. -/
def targetWorker (scope : ScopeId) (target : Value) : EStateM HostFault Colony (EntityId × Worker) := do
  let id ← require (workerId? target) (.badArgument 0)
  let worker ← require ((← get).worker? scope id) (.invalidState s!"no worker {id} in {scope.display}")
  return (id, worker)

/-- A number among values. -/
def intOf? : Option Value → Option Int32
  | some (.scalar (.i32 n)) => some n
  | _ => none

/-- A list index is no negative number. -/
def slotOf? (index : Int32) : Option Nat := if 0 ≤ index then some index.toInt.toNat else none

/-! ## Fields -/

def getPriority : Getter Colony := fun colony scope target _ => do
  let worker ← colony.worker? scope (← workerId? target)
  return .scalar (.i32 worker.priority)

/-- Priorities go from nought to nine. -/
def changePriority : Setter Colony := fun scope target _ value => do
  let priority ← require (intOf? value) (.badArgument 0)
  if priority < 0 || 9 < priority then refuse (.rejected s!"priority {priority} out of range")
  let (id, _) ← targetWorker scope target
  modify (·.setPriority scope id priority)

def getSkill : Getter Colony := fun colony scope target index => do
  let worker ← colony.worker? scope (← workerId? target)
  let level ← worker.skills[← slotOf? (← index)]?
  return .scalar (.i32 level)

def changeSkill : Setter Colony := fun scope target index value => do
  let level ← require (intOf? value) (.badArgument 0)
  let slot ← require (index.bind slotOf?) (.badArgument 1)
  let (id, worker) ← targetWorker scope target
  if worker.skills.length ≤ slot then refuse (.badArgument 1)
  modify (·.setSkill scope id slot level)

def getAlert : Getter Colony := fun colony _ _ _ => some (.scalar (.i32 colony.alertLevel))

def changeAlert : Setter Colony := fun _ _ _ value => do
  let alertLevel ← require (intOf? value) (.badArgument 0)
  modify (·.setAlert alertLevel)

def noteAlert : Hook Colony := fun context _ =>
  Host.onWorld (modify fun colony => colony.note s!"alert {colony.alertLevel} at tick {context.tick}")

/-! ## Operations -/

/-- What an operation does to the colony alone. -/
abbrev Deed := ScopeId → Value → List Value → EStateM HostFault Colony Unit

/-- An operation that needs no draws and no ambient input. -/
def Deed.act (deed : Deed) (context : CallContext) (target : Value) (arguments : List Value) : Act Unit :=
  Host.onWorld (deed context.scope target arguments)

def rest : Deed := fun scope target _ => do
  let (id, worker) ← targetWorker scope target
  modify fun colony => (colony.editWorker scope id ({ · with resting := true })).note (worker.name ++ " rests")

def haul : Deed := fun scope target arguments => do
  let other ← require (arguments.head?.bind workerId?) (.badArgument 0)
  let (id, worker) ← targetWorker scope target
  modify fun colony =>
    (colony.editWorker scope id ({ · with hauling := some other })).note s!"{worker.name} hauls {other}"

/-- The cell that a record stands for. -/
def cellOf? : Option Value → Option Cell
  | some (.record _ fields) => do return { x := ← intOf? fields[0]?, z := ← intOf? fields[1]? }
  | _ => none

def moveTo : Deed := fun scope target arguments => do
  let cell ← require (cellOf? arguments.head?) (.badArgument 0)
  let (_, worker) ← targetWorker scope target
  modify (·.note s!"{worker.name} moves to ({cell.x}, {cell.z})")

def openTrade : Deed := fun scope target arguments => do
  let offer ← require (intOf? arguments.head?) (.badArgument 0)
  let (worker, _) ← targetWorker scope target
  modify fun colony =>
    let (id, trades) := colony.trades.openSession scope { worker, offer }
    { colony with trades }.note s!"trade {id} opened by {worker}"

def closeTrade : Deed := fun _ _ arguments =>
  match arguments.head? with
  | some (.session _ id) => do
    let (trade?, trades) := (← get).trades.close id
    let trade ← require trade? (.invalidState s!"trade {id} is not open")
    modify fun colony => { colony with trades }.note s!"trade {id} closed at {trade.offer}"
  | _ => refuse (.badArgument 0)

/-- Call up the workers selected, besides those called up before if the queue key is held. -/
def draft (context : CallContext) : Act Unit := do
  let ambient := (← get).ambient
  let map ← require ((← get).world.maps.get? context.scope)
    (.invalidState (context.scope.display ++ " has no map"))
  let drafted := (if ambient.queueModifier then map.drafted else []) ++ ambient.selection.filterMap workerId?
  Host.onWorld (modify (·.editMap context.scope ({ · with drafted })))

def designate : Act Unit := do
  let cell ← require (← get).ambient.mouse (.rejected "no cell under the cursor")
  Host.onWorld (modify (·.note s!"designated ({cell.x}, {cell.z})"))

def roll : Act Unit := do
  let value ← Host.draw (RandomStream.nextInRange 0 100)
  Host.onWorld (modify (·.note s!"rolled {value}"))

/-- Break down. -/
def explode : Act Unit := throw (.brokeDown ⟨some "boom"⟩)

/-- Add a worker, who draws a mood. Nothing is drawn for one who gets no number. -/
def spawnWorker (context : CallContext) (arguments : List Value) : Act Unit :=
  match arguments.head? with
  | some (.scalar (.string name)) => do
    let some id := (((← get).world.maps.get? context.scope).getD {}).nextWorker?
      | throw (.brokeDown .sumOverflow)
    let mood ← Host.draw (RandomStream.nextInRange 20 80)
    Host.onWorld (modify fun colony =>
      (colony.editMap context.scope fun map =>
        { map with workers := map.workers.insert id { name, mood } }).note s!"spawned {name} as {id}")
  | _ => refuse (.badArgument 0)

def placeBlueprint (context : CallContext) (environment : Environment) : Act Unit := do
  let definition ← match environment.get? "def" with
    | some (.definition _ id) => pure id
    | some .null => refuse (.invalidState "unknown thing definition")
    | _ => refuse (.badArgument 0)
  let x ← require (intOf? (environment.get? "cell.x")) (.badArgument 1)
  let z ← require (intOf? (environment.get? "cell.z")) (.badArgument 1)
  Host.onWorld (modify (·.editMap context.scope fun map =>
    { map with blueprints := map.blueprints ++ [{ definition, cell := { x, z } }] }))

/-! ## The table -/

/-- The types of a colony. -/
def declarations : List Declaration := [
  .reference workerType [.spawned],
  .reference thingType [.definition],
  .reference tradeType [.session],
  .record cellType [⟨"x", .scalar .i32⟩, ⟨"z", .scalar .i32⟩]]

/-- What a blueprint is captured with. -/
def blueprintShape : ClosureShape :=
  let cell := ((ClosureShape.empty cellType).field "x" (.scalar .i32)).field "z" (.scalar .i32)
  ((ClosureShape.empty "Blueprint").field "def" (.named thingType)).nested "cell" cell

def priorityField : FieldHandler Colony where
  name := "Worker.priority"
  target := .named workerType
  value := .scalar .i32
  get := getPriority
  set := changePriority

def skillField : FieldHandler Colony where
  name := "Worker.skill"
  target := .named workerType
  value := .scalar .i32
  indexed := true
  get := getSkill
  set := changeSkill
  flushInterval := some (.ticks 3)

def alertField : FieldHandler Colony where
  name := "Colony.alert_level"
  target := .unit
  value := .scalar .i32
  get := getAlert
  set := changeAlert
  postHook := some noteAlert

/-- The handlers in the order in which they are registered. -/
def handlers : List (Handler Colony) := [
  .field priorityField, .field skillField, .field alertField,
  .operation { name := "Worker.rest", target := worker, arguments := [], invoke := Deed.act rest },
  .operation {
    name := "Worker.haul", target := worker, arguments := [worker], invoke := Deed.act haul
    cancelIfAbsent := true },
  .operation {
    name := "Worker.move_to", target := worker, arguments := [.named cellType], invoke := Deed.act moveTo },
  .operation { name := "Worker.open_trade", target := worker, arguments := [int], invoke := Deed.act openTrade },
  .operation {
    name := "Colony.close_trade", target := .unit, arguments := [.named tradeType]
    invoke := Deed.act closeTrade, cancelIfAbsent := true },
  .operation {
    name := "Colony.draft", target := .unit, arguments := [], invoke := fun context _ _ => draft context
    cancelIfNoSelection := true, info := { flags := { queueModifier := true } } },
  .operation {
    name := "Colony.designate", target := .unit, arguments := [], invoke := fun _ _ _ => designate
    info := { flags := { mouse := true } } },
  .operation { name := "Colony.roll", target := .unit, arguments := [], invoke := fun _ _ _ => roll },
  .operation { name := "Colony.explode", target := .unit, arguments := [], invoke := fun _ _ _ => explode },
  .operation {
    name := "Colony.spawn_worker", target := .unit, arguments := [.scalar .string]
    invoke := fun context _ arguments => spawnWorker context arguments, info := { debugOnly := true } },
  .closure { shape := blueprintShape, operation := "place", invoke := placeBlueprint }]
where
  worker : Ty := .named workerType
  int : Ty := .scalar .i32

/-- The registry of the colony's types, which are in order. -/
def registry : Registry := (Registry.build declarations).toOption.get (by decide +kernel)

/-- The table of the colony's handlers, which are in order. -/
def table : HandlerTable Colony :=
  (HandlerTable.build registry (some (.named workerType)) handlers).toOption.get (by decide +kernel)

end Lockstep.Colony
