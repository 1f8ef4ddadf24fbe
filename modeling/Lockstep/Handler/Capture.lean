import Lockstep.Handler.Encode

/-! # Sending captured commands

A peer sends what it captures, but not debug commands outside debug mode, and not an operation that it
sent for the same target a short while ago: such a one is passed over without an error.
-/

namespace Lockstep

/-- When operations were last sent, by handler and target, the earliest first. -/
structure Throttle where
  recent : SortedMap HandlerId (List (Bytes × Nat)) := .empty

namespace Throttle

instance : Inhabited Throttle := ⟨{}⟩

/-- Whether an operation may be sent now. What was sent an interval ago is forgotten; what may be sent is
remembered. -/
def allow (throttle : Throttle) (id : HandlerId) (key : Bytes) (interval now : Nat) : Bool × Throttle :=
  let recent := ((throttle.recent.get? id).getD []).dropWhile fun entry => interval ≤ now - entry.2
  if recent.any (·.1 == key) then (false, ⟨throttle.recent.insert id recent⟩)
  else (true, ⟨throttle.recent.insert id (recent ++ [(key, now)])⟩)

end Throttle

namespace HandlerTable

variable {W : Type}

def checkDebug (debugMode : Bool) (handler : Handler W) : Except CaptureError Unit :=
  if handler.info.debugOnly && !debugMode then .error (.debugDisabled handler.name) else .ok ()

/-- Capture the setting of a field. -/
def captureField (table : HandlerTable W) (debugMode : Bool) (handle : Handle) (scope : ScopeId)
    (ambient : Ambient) (target : Value) (index : Option Int32) (value : Value) :
    Except CaptureError PendingCommand := do
  let (_, handler) ← table.field handle
  checkDebug debugMode (.field handler)
  table.encodeField handle scope ambient target index value

/-- Capture an operation, unless it is throttled. Time is in milliseconds. -/
def captureOperation (table : HandlerTable W) (debugMode : Bool) (throttle : Throttle) (now : Nat)
    (handle : Handle) (scope : ScopeId) (ambient : Ambient) (target : Value) (arguments : List Value) :
    Except CaptureError (Option PendingCommand × Throttle) := do
  let (id, handler) ← table.operation handle
  checkDebug debugMode (.operation handler)
  let pending ← table.encodeOperation handle scope ambient target arguments
  match handler.minInterval with
  | none => return (some pending, throttle)
  | some interval =>
    let target ← (table.registry.encode handler.target target).mapError (.encode handler.name)
    let (allowed, throttle) := throttle.allow id (.ofInt32 scope.toWire ++ target) interval now
    return (if allowed then some pending else none, throttle)

/-- Capture a closure. -/
def captureClosure (table : HandlerTable W) (debugMode : Bool) (handle : Handle) (scope : ScopeId)
    (ambient : Ambient) (environment : Environment) : Except CaptureError PendingCommand := do
  let (_, handler) ← table.closure handle
  checkDebug debugMode (.closure handler)
  table.encodeClosure handle scope ambient environment

end HandlerTable

end Lockstep
