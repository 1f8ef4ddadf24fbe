import Lockstep.Peer.Basic

/-! # Requests step by step

What a peer does when it is asked for something, one effect after another. A request that fails stops
where it is, and nothing takes back what was done before. The definitions of `Lockstep.Peer.Basic` say
what a request comes to: those that can fail answer with an error or with the peer afterwards.
-/

namespace Lockstep

/-- An action of a peer. What it did before it failed stays done. -/
abbrev Peer.Action (W ε α : Type) := EStateM ε (Peer W) α

namespace Peer.Action

variable {W ε α : Type}

/-- Run an action on a peer. -/
def run (action : Action W ε α) (peer : Peer W) : Except ε α × Peer W :=
  match EStateM.run action peer with
  | .ok value after => (.ok value, after)
  | .error error after => (.error error, after)

/-- Go on with what a check comes to. -/
def check (checked : Except ε α) : Action W ε α :=
  match checked with
  | .ok value => pure value
  | .error error => throw error

/-! ## Scopes -/

/-- Add a scope that starts at a tick. -/
def addScope (scope : ScopeId) (start : Tick) : Action W PeerError Unit := do
  if (← get).scopes.contains scope then throw (.duplicateScope scope)
  modify fun peer =>
    { peer with scopes := peer.scopes.insert scope (startScope peer.config scope start) }

/-- Take a scope away, with everything that belongs to it: first its state, if it has one, then its
buffered changes, then what is known of its divergences, and last what the world has of it. -/
def removeScope [World W] (scope : ScopeId) : Action W PeerError Unit := do
  let state? := (← get).scopes.get? scope
  modify fun peer => { peer with scopes := peer.scopes.erase scope }
  if state?.isNone then throw (.unknownScope scope)
  modify fun peer => { peer with buffer := peer.buffer.removeScope scope }
  modify (·.clearDrift scope)
  modify fun peer => { peer with world := World.scopeRemoved scope peer.world }

/-! ## Captures

A capture that succeeds answers that the edit is not to be made here: it comes back as a command. -/

/-- Capture the setting of a field. -/
def captureField (handle : Handle) (scope : ScopeId) (target : Value) (index : Option Int32)
    (value : Value) : Action W CaptureError Bool := do
  let peer ← get
  let (_, handler) ← check (peer.table.field handle)
  check (HandlerTable.checkDebug peer.config.debugMode (.field handler))
  let pending ← check (peer.table.encodeField handle scope peer.ambient target index value)
  modify (·.send pending.message)
  return true

/-- Ask the throttle about an operation; the answer is whether the operation is held back. -/
def throttled (id : HandlerId) (key : Bytes) (interval now : Nat) : Action W CaptureError Bool := do
  let (allowed, throttle) := (← get).throttle.allow id key interval now
  modify ({ · with throttle })
  return !allowed

/-- Capture an operation. Time is in milliseconds. The throttle knows an operation by the bytes of its
scope and target, and is not asked before the command has been written. -/
def captureOperation (now : Nat) (handle : Handle) (scope : ScopeId) (target : Value)
    (arguments : List Value) : Action W CaptureError Bool := do
  let peer ← get
  let (id, handler) ← check (peer.table.operation handle)
  check (HandlerTable.checkDebug peer.config.debugMode (.operation handler))
  let pending ← check (peer.table.encodeOperation handle scope peer.ambient target arguments)
  if let some interval := handler.minInterval then
    let key ← check ((peer.table.registry.encode handler.target target).mapError (.encode handler.name))
    if ← throttled id (.ofInt32 scope.toWire ++ key) interval now then return true
  modify (·.send pending.message)
  return true

/-- Capture a closure. -/
def captureClosure (handle : Handle) (scope : ScopeId) (environment : Environment) :
    Action W CaptureError Bool := do
  let peer ← get
  let (_, handler) ← check (peer.table.closure handle)
  check (HandlerTable.checkDebug peer.config.debugMode (.closure handler))
  let pending ← check (peer.table.encodeClosure handle scope peer.ambient environment)
  modify (·.send pending.message)
  return true

end Peer.Action

end Lockstep
