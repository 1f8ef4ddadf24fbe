import Lockstep.Handler.Basic
import Lockstep.Session

/-! # Colonies

A small world to keep in step: maps with workers who tire and recover, blueprints, trades that are open
for as long as their map exists, and a log of what happened. Every map draws for each of its workers in
every tick, and the global scope draws once, so a world that strays is soon seen in the streams.
-/

namespace Lockstep

/-- Someone who works on a map. -/
structure Worker where
  name : String
  priority : Int32 := 3
  skills : List Int32 := [0, 0, 0, 0]
  resting : Bool := false
  mood : UInt32 := 50
  /-- Who is being carried. -/
  hauling : Option EntityId := none
  deriving DecidableEq, Repr

/-- A worker's mood after a tick: it rises in rest, up to a hundred, and falls at work. -/
def Worker.tire (worker : Worker) (delta : UInt32) : Worker :=
  { worker with mood :=
      if worker.resting then min (worker.mood + delta) 100
      else UInt32.ofNat (worker.mood.toNat - (delta / 2).toNat) }

/-- A thing to be built in a cell. -/
structure Blueprint where
  definition : DefinitionId
  cell : Cell
  deriving DecidableEq, Repr

/-- What is on a map. -/
structure ColonyMap where
  workers : SortedMap EntityId Worker := .empty
  blueprints : List Blueprint := []
  /-- The workers called up, in the order in which they were. -/
  drafted : List EntityId := []

instance : Inhabited ColonyMap := ⟨{}⟩

/-- The number of the next worker of a map: one more than the largest, if there is such a number. -/
def ColonyMap.nextWorker? (map : ColonyMap) : Option EntityId :=
  match map.workers.keys.getLast? with
  | none => some 1
  | some last => if last.toNat + 1 < UInt32.size then some (last + 1) else none

/-- What a worker offers in a trade. -/
structure Trade where
  worker : EntityId
  offer : Int32
  deriving DecidableEq, Repr

/-- A colony. The log has its latest line first. -/
structure Colony where
  maps : SortedMap ScopeId ColonyMap := .empty
  alertLevel : Int32 := 0
  /-- What the global scope has drawn last. -/
  globalRoll : UInt32 := 0
  trades : SessionRegistry Trade := {}
  log : List String := []
  /-- A tick in which the colony draws once too often. -/
  disturbance : Option (ScopeId × Tick) := none

instance : Inhabited Colony := ⟨{}⟩

namespace Colony

/-- Type names of the colony. -/
def workerType : String := "Worker"

def thingType : String := "ThingDef"

def tradeType : String := "Trade"

def cellType : String := "Cell"

/-- Definitions are numbered below this. -/
def definitionCount : DefinitionId := 8

/-! ## Maps and workers -/

/-- Change a map, which is there from then on. -/
def editMap (colony : Colony) (scope : ScopeId) (f : ColonyMap → ColonyMap) : Colony :=
  { colony with maps := colony.maps.insert scope (f ((colony.maps.get? scope).getD {})) }

def addWorker (scope : ScopeId) (id : EntityId) (name : String) (colony : Colony) : Colony :=
  colony.editMap scope fun map => { map with workers := map.workers.insert id { name } }

def worker? (colony : Colony) (scope : ScopeId) (id : EntityId) : Option Worker :=
  (colony.maps.get? scope).bind (·.workers.get? id)

def removeWorker (scope : ScopeId) (id : EntityId) (colony : Colony) : Colony :=
  { colony with maps := colony.maps.modify scope fun map => { map with workers := map.workers.erase id } }

/-- Change a worker, if there is such a one. -/
def editWorker (colony : Colony) (scope : ScopeId) (id : EntityId) (f : Worker → Worker) : Colony :=
  { colony with maps := colony.maps.modify scope fun map => { map with workers := map.workers.modify id f } }

def setPriority (scope : ScopeId) (id : EntityId) (priority : Int32) (colony : Colony) : Colony :=
  colony.editWorker scope id fun worker => { worker with priority }

/-- Set a skill, if there is such a one. -/
def setSkill (scope : ScopeId) (id : EntityId) (slot : Nat) (level : Int32) (colony : Colony) : Colony :=
  colony.editWorker scope id fun worker => { worker with skills := worker.skills.set slot level }

def setAlert (alertLevel : Int32) (colony : Colony) : Colony := { colony with alertLevel }

/-- Make a scope draw once too often in a tick. -/
def disturb (scope : ScopeId) (tick : Tick) (colony : Colony) : Colony :=
  { colony with disturbance := some (scope, tick) }

/-- A colony of maps with workers. -/
def ofMaps (maps : List (UInt32 × List (EntityId × String))) : Colony :=
  maps.foldl (fun colony entry =>
    entry.2.foldl (fun colony worker => colony.addWorker (.map entry.1) worker.1 worker.2)
      { colony with maps := colony.maps.insert (.map entry.1) {} }) {}

/-- A colony with as many workers on each of as many maps. -/
def crowded (maps workers : Nat) : Colony :=
  (List.range maps).foldl (fun colony map =>
    (List.range workers).foldl (fun colony worker =>
      colony.addWorker (.map (UInt32.ofNat (map + 1))) (UInt32.ofNat (worker + 1)) s!"w{map + 1}-{worker + 1}")
      colony) {}

/-- Add a line to the log. -/
def note (line : String) (colony : Colony) : Colony := { colony with log := line :: colony.log }

/-- The log in order, and the colony with an empty one. -/
def drainLog (colony : Colony) : List String × Colony := (colony.log.reverse, { colony with log := [] })

/-! ## References -/

/-- The worker that a value refers to. -/
def workerId? : Value → Option EntityId
  | .entity _ reference => some reference.id
  | _ => none

def workerRef (id : EntityId) : Value := .spawned workerType id

/-- A cell as a value. -/
def cellValue (cell : Cell) : Value := .record cellType [.scalar (.i32 cell.x), .scalar (.i32 cell.z)]

/-- The variables of the closure that places a blueprint. -/
def blueprintEnvironment (blueprint : Blueprint) : Environment :=
  .ofList [("def", .definition thingType blueprint.definition), ("cell.x", .scalar (.i32 blueprint.cell.x)),
    ("cell.z", .scalar (.i32 blueprint.cell.z))]

/-- What exists in a colony. -/
def resolver (colony : Colony) : Resolver where
  entity scope type reference :=
    if type = workerType then (colony.worker? scope reference.id).map fun _ => reference else none
  session type id := type == tradeType && colony.trades.contains id
  definition _ id := id < definitionCount
  scope scope := scope.isGlobal || colony.maps.contains scope

/-! ## Ticks -/

/-- A worker's tick, which takes a draw. -/
def tickWorker (_ : EntityId) (worker : Worker) (stream : RandomStream) : Worker × RandomStream :=
  let (delta, stream) := stream.nextInRange 0 5
  (worker.tire delta, stream)

/-- What a scope does in a tick. -/
def tickScope (context : CallContext) (state : HostState Colony) : HostState Colony :=
  let colony := state.world
  let stream := if colony.disturbance = some (context.scope, context.tick) then state.stream.nextU32.2 else state.stream
  match context.scope with
  | .global =>
    let (globalRoll, stream) := stream.nextU32
    { state with world := { colony with globalRoll }, stream }
  | scope =>
    match colony.maps.get? scope with
    | none => { state with stream }
    | some map =>
      let (workers, stream) := map.workers.mapAccum tickWorker stream
      { state with world := { colony with maps := colony.maps.insert scope { map with workers } }, stream }

/-- The trades of a map end with it. -/
def scopeRemoved (scope : ScopeId) (colony : Colony) : Colony :=
  let (closed, trades) := colony.trades.closeScope scope
  let colony := { colony with maps := colony.maps.erase scope, trades }
  closed.foldl (fun colony entry => colony.note s!"trade {entry.1} of worker {entry.2.worker} closed") colony

instance : World Colony where
  resolver := resolver
  tickScope := tickScope
  scopeRemoved := scopeRemoved

end Colony

end Lockstep
