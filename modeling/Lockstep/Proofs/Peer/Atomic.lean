import Lockstep.Peer.Action
import Lockstep.Proofs.Handler.Delivery

/-! # Requests that are done as a whole or not at all

An action may do something and then fail. Those that capture commands, add scopes or take scopes away
make all their checks before they change anything, so what a refused one leaves is the peer as it was
(`run_captureField` and the lemmas beside it). A capture that is not refused sends the command for the
request, whole and once, unless the throttle holds it back (`capture_atomic`).
-/

namespace Lockstep

variable {W ε α β : Type}

namespace Peer.Action

/-! ## Running actions -/

variable (peer : Peer W)

theorem run_get_bind (next : Peer W → Action W ε α) :
    ((get : Action W ε (Peer W)) >>= next).run peer = (next peer).run peer := rfl

theorem run_modify_bind (change : Peer W → Peer W) (next : Unit → Action W ε α) :
    ((modify change : Action W ε PUnit) >>= next).run peer = (next ()).run (change peer) := rfl

/-- How a request ends that is done as a whole, and then answered with a value, or not at all. -/
def allOrNothing (peer : Peer W) (value : α) : Except ε (Peer W) → Except ε α × Peer W
  | .ok after => (.ok value, after)
  | .error error => (.error error, peer)

variable {peer}

/-- A check in front does no harm: nothing has been done when it fails. -/
theorem run_check_bind {answer : β} {checked : Except ε α} {next : α → Action W ε β}
    {rest : α → Except ε (Peer W)}
    (same : ∀ value, (next value).run peer = allOrNothing peer answer (rest value)) :
    (check checked >>= next).run peer = allOrNothing peer answer (checked >>= rest) := by
  cases checked with
  | ok value => exact same value
  | error error => rfl

theorem run_captureField (handle : Handle) (scope : ScopeId) (target : Value) (index : Option Int32)
    (value : Value) : (captureField handle scope target index value).run peer =
      allOrNothing peer true (peer.captureField handle scope target index value) := by
  unfold captureField Peer.captureField HandlerTable.captureField
  rw [run_get_bind]
  simp only [bind_assoc]
  exact run_check_bind fun _ => run_check_bind fun _ => run_check_bind fun _ => rfl

theorem run_captureClosure (handle : Handle) (scope : ScopeId) (environment : Environment) :
    (captureClosure handle scope environment).run peer =
      allOrNothing peer true (peer.captureClosure handle scope environment) := by
  unfold captureClosure Peer.captureClosure HandlerTable.captureClosure
  rw [run_get_bind]
  simp only [bind_assoc]
  exact run_check_bind fun _ => run_check_bind fun _ => run_check_bind fun _ => rfl

theorem run_throttled_bind (id : HandlerId) (key : Bytes) (interval now : Nat)
    (next : Bool → Action W CaptureError α) : (throttled id key interval now >>= next).run peer =
      (next !(peer.throttle.allow id key interval now).1).run
        { peer with throttle := (peer.throttle.allow id key interval now).2 } := rfl

/-- The throttle is asked when all checks have been made. -/
theorem run_captureOperation (now : Nat) (handle : Handle) (scope : ScopeId) (target : Value)
    (arguments : List Value) : (captureOperation now handle scope target arguments).run peer =
      allOrNothing peer true (peer.captureOperation now handle scope target arguments) := by
  unfold captureOperation Peer.captureOperation HandlerTable.captureOperation
  rw [run_get_bind]
  simp only [bind_assoc]
  refine run_check_bind fun (id, handler) => run_check_bind fun _ => run_check_bind fun pending => ?_
  cases handler.minInterval with
  | none => rfl
  | some interval =>
    simp only [bind_assoc]
    refine run_check_bind fun key => ?_
    rw [run_throttled_bind]
    generalize Throttle.allow _ _ _ _ _ = weighed
    rcases weighed with ⟨_ | _, throttle⟩
    · rfl
    · rfl

theorem run_addScope (scope : ScopeId) (start : Tick) :
    (addScope scope start).run peer = allOrNothing peer () (peer.addScope scope start) := by
  unfold addScope Peer.addScope
  rw [run_get_bind]
  split
  · rfl
  · rfl

/-- A scope that is not there has no state to be taken away. -/
theorem run_removeScope [World W] (scope : ScopeId) :
    (removeScope scope).run peer = allOrNothing peer () (peer.removeScope scope) := by
  unfold removeScope Peer.removeScope
  rw [run_get_bind, run_modify_bind, SortedMap.contains]
  cases found : peer.scopes.get? scope with
  | some state => rfl
  | none =>
    have same : peer.scopes.erase scope = peer.scopes := SortedMap.erase_of_get?_eq_none found
    rw [same]
    rfl

end Peer.Action

/-! ## Captures -/

namespace HandlerTable

variable {table : HandlerTable W} {debugMode : Bool} {throttle : Throttle} {now : Nat} {handle : Handle}
  {scope : ScopeId} {ambient : Ambient} {request : Request} {pending : PendingCommand}

/-- The handler behind a handle, of whatever kind it is. -/
def behind? (table : HandlerTable W) (handle : Handle) : Option (Handler W) :=
  table.slots[handle]?.bind table.get?

/-- The command for a request, unless its handler is kept for debugging. -/
def grant (table : HandlerTable W) (debugMode : Bool) (handle : Handle) (scope : ScopeId)
    (ambient : Ambient) : Request → Except CaptureError PendingCommand
  | .field target index value => table.captureField debugMode handle scope ambient target index value
  | .operation target arguments => do
    let (_, handler) ← table.operation handle
    checkDebug debugMode (.operation handler)
    table.encodeOperation handle scope ambient target arguments
  | .closure environment => table.captureClosure debugMode handle scope ambient environment

/-- What the throttle is asked about a request: nothing, unless its handler is an operation's that is
not to be sent again for a while. -/
def throttling? (table : HandlerTable W) (handle : Handle) (scope : ScopeId) :
    Request → Option (HandlerId × Bytes × Nat)
  | .operation target _ => do
    let (id, handler) ← (table.operation handle).toOption
    let interval ← handler.minInterval
    let key ← (table.registry.encode handler.target target).toOption
    return (id, .ofInt32 scope.toWire ++ key, interval)
  | _ => none

/-- Whether a request may be sent now, and the throttle after it has been asked. -/
def weigh (table : HandlerTable W) (throttle : Throttle) (now : Nat) (handle : Handle)
    (scope : ScopeId) (request : Request) : Bool × Throttle :=
  match table.throttling? handle scope request with
  | none => (true, throttle)
  | some (id, key, interval) => throttle.allow id key interval now

/-- Whether the handler behind a handle is kept for debugging. -/
def isBarred (table : HandlerTable W) (debugMode : Bool) (handle : Handle) : Bool :=
  (table.behind? handle).any fun handler => handler.info.debugOnly && !debugMode

/-- Why a request is refused: the command for it cannot be written, from the look-up of the handler on,
or its handler is kept for debugging. -/
inductive Refuses (table : HandlerTable W) (debugMode : Bool) (handle : Handle) (scope : ScopeId)
    (ambient : Ambient) (request : Request) : CaptureError → Prop
  | unwritten {error : CaptureError}
      (failed : table.encodeRequest handle scope ambient request = .error error) :
      Refuses table debugMode handle scope ambient request error
  | barred {handler : Handler W} (behind : table.behind? handle = some handler)
      (barred : table.isBarred debugMode handle = true) :
      Refuses table debugMode handle scope ambient request (.debugDisabled handler.name)

/-- A request to a handler that is there, of the right kind, is checked before its command is written. -/
theorem grant_eq (table : HandlerTable W) (debugMode : Bool) (handle : Handle) (scope : ScopeId)
    (ambient : Ambient) (request : Request) :
    (∃ error, table.grant debugMode handle scope ambient request = .error error ∧
      table.encodeRequest handle scope ambient request = .error error) ∨
    ∃ handler, table.behind? handle = some handler ∧
      table.grant debugMode handle scope ambient request =
        checkDebug debugMode handler >>= fun _ => table.encodeRequest handle scope ambient request := by
  cases request with
  | field target index value =>
    rw [grant, captureField, encodeRequest]
    cases found : table.field handle with
    | error error => exact .inl ⟨error, rfl, by rw [encodeField, found]; rfl⟩
    | ok entry =>
      refine .inr ⟨.field entry.2, ?_, rfl⟩
      rw [behind?, slots_of_field found]
      exact field_eq_ok found
  | operation target arguments =>
    rw [grant, encodeRequest]
    cases found : table.operation handle with
    | error error => exact .inl ⟨error, rfl, by rw [encodeOperation, found]; rfl⟩
    | ok entry =>
      obtain ⟨slot, known⟩ := operation_eq_ok found
      refine .inr ⟨.operation entry.2, ?_, rfl⟩
      rw [behind?, slot]
      exact known
  | closure environment =>
    rw [grant, captureClosure, encodeRequest]
    cases found : table.closure handle with
    | error error => exact .inl ⟨error, rfl, by rw [encodeClosure, found]; rfl⟩
    | ok entry =>
      obtain ⟨slot, known⟩ := closure_eq_ok found
      refine .inr ⟨.closure entry.2, ?_, rfl⟩
      rw [behind?, slot]
      exact known

theorem isBarred_eq {handler : Handler W} (behind : table.behind? handle = some handler) :
    table.isBarred debugMode handle = (handler.info.debugOnly && !debugMode) := by
  rw [isBarred, behind]
  rfl

theorem refuses_of_grant {error : CaptureError}
    (refused : table.grant debugMode handle scope ambient request = .error error) :
    table.Refuses debugMode handle scope ambient request error := by
  rcases grant_eq table debugMode handle scope ambient request with
    ⟨other, same, failed⟩ | ⟨handler, behind, same⟩
  · cases same.symm.trans refused
    exact .unwritten failed
  · rcases bind_eq_error.mp (same.symm.trans refused) with barred | ⟨_, _, failed⟩
    · rw [checkDebug] at barred
      split at barred
      next holds =>
        cases barred
        exact .barred behind ((isBarred_eq behind).trans holds)
      next => cases barred
    · exact .unwritten failed

theorem grant_eq_ok (granted : table.grant debugMode handle scope ambient request = .ok pending) :
    table.encodeRequest handle scope ambient request = .ok pending ∧
      table.isBarred debugMode handle = false := by
  rcases grant_eq table debugMode handle scope ambient request with
    ⟨other, same, failed⟩ | ⟨handler, behind, same⟩
  · cases same.symm.trans granted
  · obtain ⟨_, passed, written⟩ := bind_eq_ok.mp (same.symm.trans granted)
    refine ⟨written, (isBarred_eq behind).trans ?_⟩
    rw [checkDebug] at passed
    split at passed
    next => cases passed
    next free => exact Bool.eq_false_iff.mpr free

/-- An operation is written with its target. -/
theorem encode_target_of_encodeOperation {id : HandlerId} {handler : OperationHandler W} {target : Value}
    {arguments : List Value} (found : table.operation handle = .ok (id, handler))
    (written : table.encodeOperation handle scope ambient target arguments = .ok pending) :
    ∃ key, table.registry.encode handler.target target = .ok key := by
  obtain ⟨_, found', written⟩ := bind_eq_ok.mp written
  cases found.symm.trans found'
  simp only at written
  split at written
  next => cases written
  next =>
    obtain ⟨_, _, _, parts, _⟩ := encodeCall_eq_ok written
    obtain ⟨key, _, keyed, _, _⟩ := encodeAll_cons_eq_ok parts
    exact ⟨key, keyed⟩

theorem weigh_operation {id : HandlerId} {handler : OperationHandler W} {target : Value} {key : Bytes}
    (found : table.operation handle = .ok (id, handler))
    (keyed : table.registry.encode handler.target target = .ok key) (throttle : Throttle) (now : Nat)
    (scope : ScopeId) (arguments : List Value) :
    table.weigh throttle now handle scope (.operation target arguments) =
      match handler.minInterval with
      | none => (true, throttle)
      | some interval => throttle.allow id (.ofInt32 scope.toWire ++ key) interval now := by
  rw [weigh, throttling?, found]
  cases limited : handler.minInterval with
  | none => simp [Except.toOption, limited]
  | some interval => simp [Except.toOption, limited, keyed]

variable (table debugMode throttle now handle scope ambient request)

/-- The throttle's own copy of the target is written like the one in the command, so it is never what a
capture fails for. -/
theorem capture_eq_grant : table.capture debugMode throttle now handle scope ambient request =
    (fun pending => (if (table.weigh throttle now handle scope request).1 then some pending else none,
        (table.weigh throttle now handle scope request).2)) <$>
      table.grant debugMode handle scope ambient request := by
  cases request with
  | field target index value =>
    rw [grant, ← bind_pure_comp]
    rfl
  | closure environment =>
    rw [grant, ← bind_pure_comp]
    rfl
  | operation target arguments =>
    rw [grant, map_bind]
    refine bind_congr_ok fun (id, handler) found => ?_
    rw [map_bind]
    refine bind_congr_ok fun _ _ => ?_
    rw [← bind_pure_comp]
    refine bind_congr_ok fun pending written => ?_
    obtain ⟨key, keyed⟩ := encode_target_of_encodeOperation found written
    rw [weigh_operation found keyed]
    cases handler.minInterval with
    | none => rfl
    | some interval =>
      rw [keyed]
      rfl

end HandlerTable

namespace Peer

/-- Capture the command for a request. -/
def Action.capture (now : Nat) (handle : Handle) (scope : ScopeId) : Request → Action W CaptureError Bool
  | .field target index value => captureField handle scope target index value
  | .operation target arguments => captureOperation now handle scope target arguments
  | .closure environment => captureClosure handle scope environment

/-- How a capture ends: what it answers, and the peer afterwards. -/
inductive Captures (peer : Peer W) (now : Nat) (handle : Handle) (scope : ScopeId) (request : Request) :
    Except CaptureError Bool → Peer W → Prop
  /-- It is refused, and nothing has happened. -/
  | refused {error : CaptureError}
      (refuses : peer.table.Refuses peer.config.debugMode handle scope peer.ambient request error) :
      Captures peer now handle scope request (.error error) peer
  /-- One message is sent, which brings back the command for the request. -/
  | sent {pending : PendingCommand} {bytes : Bytes} {throttle : Throttle}
      (written : peer.table.encodeRequest handle scope peer.ambient request = .ok pending)
      (free : peer.table.isBarred peer.config.debugMode handle = false)
      (allowed : peer.table.weigh peer.throttle now handle scope request = (true, throttle))
      (arrives : ∀ tick, Command.ofDelivery scope tick bytes = .ok (pending.stamp tick)) :
      Captures peer now handle scope request (.ok true)
        { peer with throttle, outbox := .command scope bytes :: peer.outbox }
  /-- Nothing is sent, since the throttle holds the command back. -/
  | heldBack {pending : PendingCommand} {throttle : Throttle}
      (written : peer.table.encodeRequest handle scope peer.ambient request = .ok pending)
      (free : peer.table.isBarred peer.config.debugMode handle = false)
      (heldBack : peer.table.weigh peer.throttle now handle scope request = (false, throttle)) :
      Captures peer now handle scope request (.ok true) { peer with throttle }

/-- What a capture comes to, in one piece. -/
theorem Action.run_capture (peer : Peer W) (now : Nat) (handle : Handle) (scope : ScopeId)
    (request : Request) : (Action.capture now handle scope request).run peer =
      Action.allOrNothing peer true ((fun entry => match entry.1 with
        | some pending => ({ peer with throttle := entry.2 } : Peer W).send pending.message
        | none => { peer with throttle := entry.2 }) <$>
          peer.table.capture peer.config.debugMode peer.throttle now handle scope peer.ambient
            request) := by
  cases request with
  | field target index value =>
    rw [capture, run_captureField, Peer.captureField, HandlerTable.capture]
    cases peer.table.captureField peer.config.debugMode handle scope peer.ambient target index value with
    | error error => rfl
    | ok pending => rfl
  | operation target arguments =>
    exact (run_captureOperation now handle scope target arguments).trans
      (congrArg (allOrNothing peer true) (bind_pure_comp _ _))
  | closure environment =>
    rw [capture, run_captureClosure, Peer.captureClosure, HandlerTable.capture]
    cases peer.table.captureClosure peer.config.debugMode handle scope peer.ambient environment with
    | error error => rfl
    | ok pending => rfl

/-- A capture that is refused leaves everything as it was; any other one sends the command for the
request exactly once, unless the throttle holds it back. -/
theorem capture_atomic (peer : Peer W) (now : Nat) (handle : Handle) (scope : ScopeId)
    (request : Request) : peer.Captures now handle scope request
      ((Action.capture now handle scope request).run peer).1
      ((Action.capture now handle scope request).run peer).2 := by
  rw [Action.run_capture, HandlerTable.capture_eq_grant]
  cases granted : peer.table.grant peer.config.debugMode handle scope peer.ambient request with
  | error error => exact .refused (HandlerTable.refuses_of_grant granted)
  | ok pending =>
    obtain ⟨written, free⟩ := HandlerTable.grant_eq_ok granted
    obtain ⟨handler, carries⟩ := HandlerTable.carries_of_encodeRequest written
    have arrives (tick : Tick) : Command.ofDelivery scope tick pending.encode = .ok (pending.stamp tick) :=
      carries.scope ▸ Command.ofDelivery_encode pending tick
    rcases weighed : peer.table.weigh peer.throttle now handle scope request with ⟨_ | _, throttle⟩
    · exact .heldBack written free weighed
    · have message : pending.message = .command scope pending.encode := by
        rw [PendingCommand.message, carries.scope]
      have sent := Captures.sent written free weighed arrives
      rw [← message] at sent
      exact sent

end Peer

end Lockstep
