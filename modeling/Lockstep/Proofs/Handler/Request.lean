import Lockstep.Handler.Capture
import Lockstep.Proofs.Handler.Ambient
import Lockstep.Proofs.Handler.Table

/-! # Requests and their commands

A request names what a handler is to work on: the three ways to capture a command differ in nothing
else. Whatever is captured is the payload of one handler, which takes requests of this kind: the flagged
ambient input, and behind it the parts of the request, each at its type.
-/

namespace Lockstep

/-- What is asked of a handler when a command is captured. -/
inductive Request where
  | field (target : Value) (index : Option Int32) (value : Value)
  | operation (target : Value) (arguments : List Value)
  | closure (environment : Environment)

namespace Handler

variable {W : Type}

/-- Whether a request is of the kind of a handler and leaves out no argument and no variable. -/
def takes : Handler W → Request → Bool
  | .field _, .field .. => true
  | .operation handler, .operation _ arguments => arguments.length == handler.arguments.length
  | .closure handler, .closure environment =>
    handler.shape.fields.all fun entry => environment.contains entry.1
  | _, _ => false

/-- The values of a request that travel, with their types. -/
def parts : Handler W → Request → List (Ty × Value)
  | .field handler, .field target _ value => [(handler.target, target), (handler.value, value)]
  | .operation handler, .operation target arguments =>
    (handler.target, target) :: handler.arguments.zip arguments
  | .closure handler, .closure environment =>
    handler.shape.fields.map fun entry => (entry.2, (environment.get? entry.1).getD .null)
  | _, _ => []

/-- The bytes of a request: its parts, and in front of a field's value the index. -/
def encodeRequest (registry : Registry) : Handler W → Request → Except EncodeError Bytes
  | .field handler, .field target index value =>
    HandlerTable.encodeFieldCall registry handler target index value
  | handler, request => HandlerTable.encodeAll registry (handler.parts request)

end Handler

namespace HandlerTable

variable {W : Type} {table : HandlerTable W} {handle : Handle} {scope : ScopeId} {ambient : Ambient}
  {request : Request} {pending : PendingCommand}

/-- The command for a request. -/
def encodeRequest (table : HandlerTable W) (handle : Handle) (scope : ScopeId) (ambient : Ambient) :
    Request → Except CaptureError PendingCommand
  | .field target index value => table.encodeField handle scope ambient target index value
  | .operation target arguments => table.encodeOperation handle scope ambient target arguments
  | .closure environment => table.encodeClosure handle scope ambient environment

/-- Capture a request: the command to send, if any, and the throttle afterwards. -/
def capture (table : HandlerTable W) (debugMode : Bool) (throttle : Throttle) (now : Nat)
    (handle : Handle) (scope : ScopeId) (ambient : Ambient) :
    Request → Except CaptureError (Option PendingCommand × Throttle)
  | .field target index value => do
    return (some (← table.captureField debugMode handle scope ambient target index value), throttle)
  | .operation target arguments =>
    table.captureOperation debugMode throttle now handle scope ambient target arguments
  | .closure environment => do
    return (some (← table.captureClosure debugMode handle scope ambient environment), throttle)

/-- The values that travel with the command for a request, with their types. -/
def carried (table : HandlerTable W) (handler : Handler W) (ambient : Ambient) (request : Request) :
    List (Ty × Value) :=
  ambient.parts handler.info.flags table.selectionType ++ handler.parts request

/-- A command is the one for a request to the handler behind a handle. -/
structure Carries (table : HandlerTable W) (handle : Handle) (scope : ScopeId) (ambient : Ambient)
    (request : Request) (pending : PendingCommand) (handler : Handler W) : Prop where
  slot : table.slots[handle]? = some pending.handler
  known : table.get? pending.handler = some handler
  takes : handler.takes request = true
  scope : pending.scope = scope
  payload : ∃ front back,
    ambient.encode table.registry handler.info.flags table.selectionType = .ok front ∧
      handler.encodeRequest table.registry request = .ok back ∧ pending.payload = front ++ back

/-! ## What is captured -/

theorem encodeCall_eq_ok {id : HandlerId} {handler : Handler W} {call : Except EncodeError Bytes}
    (encoded : table.encodeCall id handler scope ambient call = .ok pending) :
    ∃ front back, ambient.encode table.registry handler.info.flags table.selectionType = .ok front ∧
      call = .ok back ∧ pending = ⟨id, scope, front ++ back⟩ := by
  simp only [encodeCall] at encoded
  split at encoded
  next payload written =>
    obtain ⟨front, left, written⟩ := bind_eq_ok.mp written
    obtain ⟨back, right, flat⟩ := bind_eq_ok.mp written
    cases flat
    cases encoded
    exact ⟨front, back, left, right, rfl⟩
  next => cases encoded

theorem carries_of_encodeCall {id : HandlerId} {handler : Handler W}
    (slot : table.slots[handle]? = some id) (known : table.get? id = some handler)
    (takes : handler.takes request = true)
    (encoded : table.encodeCall id handler scope ambient
      (handler.encodeRequest table.registry request) = .ok pending) :
    table.Carries handle scope ambient request pending handler := by
  obtain ⟨front, back, left, right, rfl⟩ := encodeCall_eq_ok encoded
  exact ⟨slot, known, takes, rfl, front, back, left, right, rfl⟩

/-- The variables that are captured are the parts of the request, and none is missing. -/
theorem captured_eq_ok {handler : ClosureHandler W} {environment : Environment}
    {values : List (Ty × Value)} (found : captured handler environment = .ok values) :
    (Handler.closure handler).takes (.closure environment) = true ∧
      values = (Handler.closure handler).parts (.closure environment) := by
  unfold captured at found
  rw [Handler.takes, Handler.parts]
  generalize handler.shape.fields = fields at found ⊢
  induction fields generalizing values with
  | nil =>
    cases found
    exact ⟨rfl, rfl⟩
  | cons entry fields ih =>
    rw [List.mapM_cons] at found
    obtain ⟨value, first, found⟩ := bind_eq_ok.mp found
    obtain ⟨rest, others, flat⟩ := bind_eq_ok.mp found
    cases flat
    obtain ⟨complete, rfl⟩ := ih others
    split at first
    next known =>
      cases first
      have present : environment.contains entry.1 = true := by rw [SortedMap.contains, known]; rfl
      refine ⟨?_, ?_⟩
      · rw [List.all_cons, present, complete]
        rfl
      · rw [List.map_cons, known, Option.getD_some]
    next => cases first

/-- The command for a request is that of the handler behind the handle, which takes it. -/
theorem carries_of_encodeRequest
    (encoded : table.encodeRequest handle scope ambient request = .ok pending) :
    ∃ handler, table.Carries handle scope ambient request pending handler := by
  cases request with
  | field target index value =>
    obtain ⟨⟨id, handler⟩, found, encoded⟩ := bind_eq_ok.mp encoded
    exact ⟨.field handler,
      carries_of_encodeCall (slots_of_field found) (field_eq_ok found) rfl encoded⟩
  | operation target arguments =>
    obtain ⟨⟨id, handler⟩, found, encoded⟩ := bind_eq_ok.mp encoded
    obtain ⟨slot, known⟩ := operation_eq_ok found
    simp only at encoded
    split at encoded
    next => cases encoded
    next count =>
      have takes := beq_iff_eq.mpr (Decidable.not_not.mp count)
      exact ⟨.operation handler, carries_of_encodeCall slot known takes encoded⟩
  | closure environment =>
    obtain ⟨⟨id, handler⟩, found, encoded⟩ := bind_eq_ok.mp encoded
    obtain ⟨slot, known⟩ := closure_eq_ok found
    obtain ⟨values, same, encoded⟩ := bind_eq_ok.mp encoded
    obtain ⟨takes, rfl⟩ := captured_eq_ok same
    exact ⟨.closure handler, carries_of_encodeCall slot known takes encoded⟩

/-- What a capture sends is the command for the request. -/
theorem capture_eq_some {debugMode : Bool} {throttle after : Throttle} {now : Nat}
    (captured : table.capture debugMode throttle now handle scope ambient request =
      .ok (some pending, after)) :
    table.encodeRequest handle scope ambient request = .ok pending := by
  cases request with
  | field target index value =>
    obtain ⟨sent, checked, flat⟩ := bind_eq_ok.mp captured
    cases flat
    obtain ⟨_, _, checked⟩ := bind_eq_ok.mp checked
    obtain ⟨_, _, encoded⟩ := bind_eq_ok.mp checked
    exact encoded
  | operation target arguments =>
    obtain ⟨⟨_, handler⟩, _, captured⟩ := bind_eq_ok.mp captured
    obtain ⟨_, _, captured⟩ := bind_eq_ok.mp captured
    obtain ⟨sent, encoded, captured⟩ := bind_eq_ok.mp captured
    split at captured
    next =>
      cases captured
      exact encoded
    next interval _ =>
      obtain ⟨key, _, allowed⟩ := bind_eq_ok.mp captured
      have sent := congrArg Prod.fst (Except.ok.inj allowed)
      simp only at sent
      split at sent
      next =>
        cases sent
        exact encoded
      next => cases sent
  | closure environment =>
    obtain ⟨sent, checked, flat⟩ := bind_eq_ok.mp captured
    cases flat
    obtain ⟨_, _, checked⟩ := bind_eq_ok.mp checked
    obtain ⟨_, _, encoded⟩ := bind_eq_ok.mp checked
    exact encoded

end HandlerTable

end Lockstep
