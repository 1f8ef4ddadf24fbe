import Lockstep.Handler.Table
import Lockstep.Watch.Error

/-! # Watches and buffered changes

A field may be edited in the live world while a watch on it is open. When the watch closes, the edit is
taken back and kept as a buffered change: the world shows what all peers agree on, and the change
reaches it, as everywhere, by a command. A later watch on the field puts the change back for as long as
it is open.

Open watches form a stack. Of several watches on one field the lowest does the work and the others
are shadowed. A flush sends the changes that have waited long enough, and drops those that the world
has come to show.
-/

namespace Lockstep

/-- What a buffered change is a change of. -/
structure BufferKey where
  handler : HandlerId
  scope : ScopeId
  target : Bytes
  index : Option Int32
  deriving DecidableEq, Repr

/-- An edit that has not come back as a command yet. -/
structure BufferedChange where
  handle : Handle
  scope : ScopeId
  target : Value
  index : Option Int32
  /-- What the world shows while no watch is open. -/
  actual : Value
  /-- What the field was edited to. -/
  pending : Value
  sent : Bool
  /-- When the change was made or last sent, in milliseconds and in ticks of its scope. -/
  stamp : Nat
  stampTick : Tick
  deriving Repr

/-- A watch on a field. -/
structure OpenWatch where
  serial : Nat
  key : BufferKey
  handle : Handle
  target : Value
  /-- The value when the watch opened, if there was one. -/
  before : Option Value
  /-- A watch on the same field was open already. -/
  shadowed : Bool
  deriving Repr

/-- How a watch ended. -/
inductive WatchOutcome where
  | unchanged
  | unresolved
  | buffered
  | updated
  | nested
  deriving DecidableEq, Repr

def WatchOutcome.name : WatchOutcome → String
  | unchanged => "Unchanged"
  | unresolved => "Unresolved"
  | buffered => "Buffered"
  | updated => "Updated"
  | nested => "Nested"

/-- The buffered changes in the order in which they were made, and the open watches, innermost first. -/
structure ChangeBuffer where
  entries : List (BufferKey × BufferedChange) := []
  watches : List OpenWatch := []
  nextSerial : Nat := 0
  deriving Repr, Inhabited

namespace ChangeBuffer

def size (buffer : ChangeBuffer) : Nat := buffer.entries.length

/-- The number of open watches. -/
def depth (buffer : ChangeBuffer) : Nat := buffer.watches.length

def changes (buffer : ChangeBuffer) : List BufferedChange := buffer.entries.map (·.2)

/-- The change of a field. -/
def change? (buffer : ChangeBuffer) (key : BufferKey) : Option BufferedChange := buffer.entries.lookup key

/-- Replace the change of a field, if there is one. -/
def update (buffer : ChangeBuffer) (key : BufferKey) (f : BufferedChange → BufferedChange) : ChangeBuffer :=
  { buffer with entries := buffer.entries.map fun entry => if entry.1 = key then (key, f entry.2) else entry }

/-- Add the change of a field that has none. -/
def add (buffer : ChangeBuffer) (key : BufferKey) (change : BufferedChange) : ChangeBuffer :=
  { buffer with entries := buffer.entries ++ [(key, change)] }

/-- Drop all changes in a scope. -/
def removeScope (buffer : ChangeBuffer) (scope : ScopeId) : ChangeBuffer :=
  { buffer with entries := buffer.entries.filter (·.1.scope != scope) }

end ChangeBuffer

/-- What watches act on. -/
structure Watched (W : Type) where
  buffer : ChangeBuffer
  world : W

/-- An action of a watch. What it did before it failed stays done. -/
abbrev Watching (W α : Type) := EStateM WatchError (Watched W) α

namespace Watching

variable {W : Type}

/-- Run an action on a buffer and a world. -/
def run {α : Type} (action : Watching W α) (watched : Watched W) : Except WatchError α × Watched W :=
  match action watched with
  | .ok value watched => (.ok value, watched)
  | .error error watched => (.error error, watched)

def editBuffer (f : ChangeBuffer → ChangeBuffer) : Watching W Unit :=
  modify fun watched => { watched with buffer := f watched.buffer }

/-- The live value of a field. -/
def read (handler : FieldHandler W) (scope : ScopeId) (target : Value) (index : Option Int32) :
    Watching W (Option Value) := do
  return handler.get (← get).world scope target index

/-- Write a field of the live world. -/
def write (handler : FieldHandler W) (scope : ScopeId) (target : Value) (index : Option Int32)
    (value : Value) : Watching W Unit := fun watched =>
  match handler.set scope target index value watched.world with
  | .ok () world => .ok () { watched with world }
  | .error (.refused source) world => .error (.rollback handler.name source) { watched with world }
  | .error (.brokeDown breakdown) world => .error (.brokeDown breakdown) { watched with world }

end Watching

namespace ChangeBuffer

variable {W : Type}

/-- The key of a field of a target. -/
def keyOf (table : HandlerTable W) (handle : Handle) (scope : ScopeId) (target : Value)
    (index : Option Int32) : Except CaptureError (BufferKey × FieldHandler W) := do
  let (id, handler) ← table.field handle
  let encoded ← (table.registry.encode handler.target target).mapError (.encode handler.name)
  return ({ handler := id, scope, target := encoded, index }, handler)

/-- Open a watch on a field; the answer is the watch's serial number. A buffered change of the field is
put back into the live world, whose value until then is what all peers agree on. -/
def beginWatch (table : HandlerTable W) (handle : Handle) (scope : ScopeId) (target : Value)
    (index : Option Int32) : Watching W Nat := do
  match keyOf table handle scope target index with
  | .error error => throw (.capture error)
  | .ok (key, handler) =>
    let buffer := (← get).buffer
    let shadowed := buffer.watches.any (·.key = key)
    match if shadowed then none else buffer.change? key with
    | none => pure ()
    | some change =>
      let live ← Watching.read handler scope target index
      Watching.editBuffer (·.update key fun change => { change with actual := live.getD change.actual })
      Watching.write handler scope target index change.pending
    let before ← Watching.read handler scope target index
    let serial := buffer.nextSerial
    Watching.editBuffer fun buffer => { buffer with
      watches := { serial, key, handle, target, before, shadowed } :: buffer.watches
      nextSerial := serial + 1 }
    return serial

/-- Settle a watch that has left the stack: keep its edit as a buffered change, and put the live world
back to what all peers agree on. -/
def settle (table : HandlerTable W) (now : Nat) (currentTick : ScopeId → Option Tick) (watch : OpenWatch) :
    Watching W WatchOutcome := do
  if watch.shadowed then return .nested
  match table.field watch.handle with
  | .error error => throw (.capture error)
  | .ok (_, handler) =>
    let scope := watch.key.scope
    let index := watch.key.index
    let after ← Watching.read handler scope watch.target index
    match (← get).buffer.change? watch.key with
    | some change =>
      match watch.before, after with
      | some before, some after =>
        let changed := !after.equal before
        if changed then
          Watching.editBuffer (·.update watch.key fun change => { change with pending := after, sent := false })
        Watching.write handler scope watch.target index change.actual
        return if changed then .updated else .unchanged
      | _, _ => return .unresolved
    | none =>
      match watch.before, after with
      | some before, some after =>
        if after.equal before then return .unchanged
        Watching.write handler scope watch.target index before
        Watching.editBuffer (·.add watch.key {
          handle := watch.handle, scope, target := watch.target, index, actual := before
          pending := after, sent := false, stamp := now, stampTick := (currentTick scope).getD 0 })
        return .buffered
      | _, _ => return .unresolved

/-- Settle watches one after another. One that the host refuses to settle does not hold up the others,
one on which it breaks down does: the rest of the watches stay open. -/
def unwind (table : HandlerTable W) (now : Nat) (currentTick : ScopeId → Option Tick) :
    List OpenWatch → Watching W Unit
  | [] => return
  | watch :: rest => do
    Watching.editBuffer fun buffer => { buffer with watches := buffer.watches.drop 1 }
    fun watched =>
      match settle table now currentTick watch watched with
      | .error (.brokeDown breakdown) watched => .error (.brokeDown breakdown) watched
      | .ok _ watched | .error _ watched => unwind table now currentTick rest watched

/-- Close a watch. Watches opened after it are closed with it, innermost first, and that is an error. -/
def endWatch (table : HandlerTable W) (serial now : Nat) (currentTick : ScopeId → Option Tick) :
    Watching W WatchOutcome := do
  let watches := (← get).buffer.watches
  match watches with
  | [] => throw (.closed serial)
  | innermost :: rest =>
    if innermost.serial = serial then
      Watching.editBuffer fun buffer => { buffer with watches := rest }
      settle table now currentTick innermost
    else if watches.any (·.serial = serial) then
      unwind table now currentTick (watches.take (watches.findIdx (·.serial = serial) + 1))
      throw (.crossed innermost.serial serial)
    else throw (.closed serial)

/-- Whether a change has waited long enough. -/
def isDue (interval : FlushInterval) (now : Nat) (tick : Option Tick) (change : BufferedChange) : Bool :=
  match interval with
  | .millis count => count.toNat ≤ now - change.stamp
  | .ticks count =>
    match tick with
    | some tick => count.toNat ≤ tick.toNat - change.stampTick.toNat
    | none => false

/-- What a flush does with one change: what is kept of it, and the outcome of sending it, if that was
tried. -/
def flushChange {ε β : Type} (table : HandlerTable W) (world : W) (now : Nat)
    (currentTick : ScopeId → Option Tick) (interval : FlushInterval) (force : Bool)
    (send : BufferedChange → Except ε β) (change : BufferedChange) :
    Option BufferedChange × Option (Except ε β) :=
  match table.field change.handle with
  | .error _ => (none, none)
  | .ok (_, handler) =>
    match handler.get world change.scope change.target change.index with
    | none => (none, none)
    | some live =>
      let change := { change with actual := live }
      let tick := currentTick change.scope
      if live.equal change.pending then (none, none)
      else if change.sent then (some change, none)
      else if force || isDue (handler.flushInterval.getD interval) now tick change then
        match send change with
        | .ok message =>
          (some { change with sent := true, stamp := now, stampTick := tick.getD change.stampTick },
            some (.ok message))
        | .error error => (some change, some (.error error))
      else (some change, none)

/-- Send the changes that have waited long enough, or all that are not sent yet. The answer lists the
outcomes of sending, in the order of the changes. -/
def flush {ε β : Type} (table : HandlerTable W) (world : W) (now : Nat)
    (currentTick : ScopeId → Option Tick) (interval : FlushInterval) (force : Bool)
    (send : BufferedChange → Except ε β) (buffer : ChangeBuffer) : List (Except ε β) × ChangeBuffer :=
  let results := buffer.entries.map fun entry =>
    (entry.1, flushChange table world now currentTick interval force send entry.2)
  (results.filterMap (·.2.2),
    { buffer with entries := results.filterMap fun result => result.2.1.map (result.1, ·) })

end ChangeBuffer

end Lockstep
