import Lockstep.Proofs.Handler.Fidelity
import Lockstep.Proofs.Watch.Cells

/-! # What the setting of a field leaves

A host may refuse what a field is set to. Where the field is a cell of its own all the same
(`HandlerTable.CellAt`), it shows what it has taken and otherwise what it showed before, also where it
is set by a command that was captured elsewhere (`CellAt.runCommand`).
-/

namespace Lockstep

variable {W : Type}

/-- The field at a place is a cell of its own: what it takes it shows, what it refuses leaves it as it
was, and neither its own hooks nor what other fields are set to touch it. -/
structure HandlerTable.CellAt (table : HandlerTable W) (place : Place) : Prop where
  taken {field : FieldHandler W} {value : Value} {world next : W} :
    table.get? place.handler = some (.field field) →
      field.set place.scope place.target place.index value world = .ok () next →
        table.read? next place = some value
  refused {field : FieldHandler W} {value : Value} {world next : W} {fault : HostFault} :
    table.get? place.handler = some (.field field) →
      field.set place.scope place.target place.index value world = .error fault next →
        table.read? next place = table.read? world place
  apart {other : Place} {field : FieldHandler W} {value : Value} {world : W} : other ≠ place →
    table.get? other.handler = some (.field field) →
      table.read? (stateAfter (field.set other.scope other.target other.index value world)) place =
        table.read? world place
  hook {field : FieldHandler W} {hook : Hook W} {context : CallContext} {target : Value}
    {state : HostState W} : table.get? place.handler = some (.field field) →
      field.preHook = some hook ∨ field.postHook = some hook →
        table.read? (stateAfter (hook context target state)).world place =
          table.read? state.world place

/-- How a command that sets a field came out tells what it has left there. -/
structure HandlerTable.Answers (table : HandlerTable W) (place : Place) (value : Value) (before after : W)
    (outcome : CommandOutcome) : Prop where
  executed : outcome = .ok .executed → table.read? after place = some value
  refused {name : String} {error : InvokeError} : outcome = .error (.invoke name error) →
    table.read? after place = table.read? before place

/-- Nothing is told by an outcome that is neither. -/
theorem HandlerTable.Answers.of_ne {table : HandlerTable W} {place : Place} {value : Value}
    {before after : W} {outcome : CommandOutcome} (executed : outcome ≠ .ok .executed)
    (refused : ∀ name error, outcome ≠ .error (.invoke name error)) :
    table.Answers place value before after outcome :=
  ⟨fun same => absurd same executed, fun same => absurd same (refused _ _)⟩

/-- Where the captured setting of a field lands. It carries an index exactly if the field has indices. -/
def FieldHandler.lands (field : FieldHandler W) (place : Place) : Place :=
  { place with index := if field.indexed then some (place.index.getD 0) else none }

theorem FieldHandler.lands_eq_self {field : FieldHandler W} {place : Place}
    (indexed : field.indexed = place.index.isSome) : field.lands place = place := by
  obtain ⟨_, _, _, index⟩ := place
  cases index with
  | none => simp [lands, show field.indexed = false from indexed]
  | some index => simp [lands, show field.indexed = true from indexed]

/-- A captured setting of a field is a command that carries it to the field's handler. -/
theorem HandlerTable.carries_of_captureField {table : HandlerTable W} {debugMode : Bool}
    {handle : Handle} {scope : ScopeId} {ambient : Ambient} {target value : Value}
    {index : Option Int32} {pending : PendingCommand} {id : HandlerId} {field : FieldHandler W}
    (captured : table.captureField debugMode handle scope ambient target index value = .ok pending)
    (known : table.field handle = .ok (id, field)) :
    pending.handler = id ∧
      table.Carries handle scope ambient (.field target index value) pending (.field field) := by
  have asked : table.capture debugMode {} 0 handle scope ambient (.field target index value) =
      .ok (some pending, {}) := by
    rw [capture, captured]
    rfl
  obtain ⟨handler, carries⟩ := carries_of_encodeRequest (capture_eq_some asked)
  have same : pending.handler = id :=
    Option.some.inj (carries.slot.symm.trans (slots_of_field known))
  have handles := carries.known
  rw [same, field_eq_ok known] at handles
  cases handles
  exact ⟨same, carries⟩

/-- What is captured for a scalar field is a scalar of its kind. -/
theorem HandlerTable.Carries.scalar {table : HandlerTable W} {handle : Handle} {scope : ScopeId}
    {ambient : Ambient} {target value : Value} {index : Option Int32} {pending : PendingCommand}
    {field : FieldHandler W} {kind : ScalarKind}
    (carries : table.Carries handle scope ambient (.field target index value) pending (.field field))
    (type : field.value = .scalar kind) : ∃ scalar, value = .scalar scalar ∧ scalar.kind = kind := by
  obtain ⟨-, back, -, written, -⟩ := carries.payload
  obtain ⟨_, -, written⟩ := bind_eq_ok.mp written
  obtain ⟨_, written, -⟩ := bind_eq_ok.mp written
  rw [type] at written
  obtain ⟨scalar, same, kind, -⟩ := Registry.encodeValue_scalar_eq_ok written
  exact ⟨scalar, same, kind⟩

/-- What is captured for a field of integers is no floating-point number. -/
theorem HandlerTable.Carries.isFloatFree {table : HandlerTable W} {handle : Handle} {scope : ScopeId}
    {ambient : Ambient} {target value : Value} {index : Option Int32} {pending : PendingCommand}
    {field : FieldHandler W} {kind : ScalarKind}
    (carries : table.Carries handle scope ambient (.field target index value) pending (.field field))
    (type : field.value = .scalar kind) (integer : kind.isInteger = true) :
    value.isFloatFree = true := by
  obtain ⟨scalar, rfl, rfl⟩ := carries.scalar type
  rw [Value.isFloatFree, Value.allScalars, Scalar.isFloat_of_isInteger integer]
  rfl

/-- A hook may break down, but it cannot refuse. -/
theorem FieldHandler.runHook_ne_refused (hook? : Option (Hook W)) (context : CallContext)
    (target : Value) (error : InvokeError) {state after : HostState W} :
    runHook hook? context target state ≠ .error (.refused error) after := by
  intro refused
  cases hook? with
  | none => cases refused
  | some hook =>
    rw [runHook, Host.unrefusable] at refused
    cases ran : hook context target state with
    | ok _ _ =>
      rw [ran] at refused
      cases refused
    | error _ _ =>
      rw [ran] at refused
      cases refused

namespace HandlerTable.CellAt

variable {table : HandlerTable W} {place : Place} {field : FieldHandler W} {value : Value}

/-- A field that is set shows what it is set to or what it showed before. -/
theorem shows_set (cell : table.CellAt place) (known : table.get? place.handler = some (.field field))
    {shown : Option Value → Prop} (after : shown (some value)) {world : W}
    (before : shown (table.read? world place)) :
    shown (table.read? (stateAfter
      (field.set place.scope place.target place.index value world)) place) := by
  cases written : field.set place.scope place.target place.index value world with
  | ok _ next =>
    rw [stateAfter, cell.taken known written]
    exact after
  | error fault next =>
    rw [stateAfter, cell.refused known written]
    exact before

theorem read?_runHook (cell : table.CellAt place)
    (known : table.get? place.handler = some (.field field)) {hook? : Option (Hook W)}
    (either : hook? = field.preHook ∨ hook? = field.postHook) (context : CallContext)
    (target : Value) (state : HostState W) :
    table.read? (stateAfter (FieldHandler.runHook hook? context target state)).world place =
      table.read? state.world place := by
  cases hook? with
  | none => rfl
  | some hook =>
    rw [FieldHandler.stateAfter_runHook]
    exact cell.hook known (either.imp Eq.symm Eq.symm)

/-- Called by a command, a host that comes to its end has set the field, and one that refuses has left
it as it was. -/
theorem read?_call (cell : table.CellAt place)
    (known : table.get? place.handler = some (.field field)) {context : CallContext}
    (scope : context.scope = place.scope) (value : Value) (state : HostState W) :
    match (Handler.field field).call context (.field place.target place.index value) state with
    | .ok _ after => table.read? after.world place = some value
    | .error (.refused _) after => table.read? after.world place = table.read? state.world place
    | .error (.brokeDown _) _ => True := by
  have call : (Handler.field field).call context (.field place.target place.index value) =
      EStateM.bind (FieldHandler.runHook field.preHook context place.target) fun _ =>
        EStateM.bind (Host.onWorld (field.set place.scope place.target place.index value)) fun _ =>
          FieldHandler.runHook field.postHook context place.target := by
    rw [Handler.call, scope]
    rfl
  have before := cell.read?_runHook known (.inl rfl) context place.target state
  rw [call, EStateM.bind]
  cases first : FieldHandler.runHook field.preHook context place.target state with
  | error fault next =>
    cases fault with
    | refused error => exact absurd first (FieldHandler.runHook_ne_refused _ _ _ error)
    | brokeDown _ => trivial
  | ok _ next =>
    rw [first] at before
    simp only [EStateM.bind, Host.onWorld]
    cases written : field.set place.scope place.target place.index value next.world with
    | error fault last =>
      cases fault with
      | refused error => exact (cell.refused known written).trans before
      | brokeDown _ => trivial
    | ok _ last =>
      have after := cell.read?_runHook known (.inr rfl) context place.target { next with world := last }
      simp only
      cases third : FieldHandler.runHook field.postHook context place.target
          { next with world := last } with
      | error fault final =>
        cases fault with
        | refused error => exact absurd third (FieldHandler.runHook_ne_refused _ _ _ error)
        | brokeDown _ => trivial
      | ok _ final =>
        rw [third] at after
        exact after.trans (cell.taken known written)

/-- So what becomes of a setting tells what the field shows. -/
theorem answers (cell : table.CellAt place) (known : table.get? place.handler = some (.field field))
    {context : CallContext} (scope : context.scope = place.scope) (name : String) (around : Ambient)
    (value : Value) (state : HostState W) :
    match settle name (Host.withAmbient around ((Handler.field field).respond context
      (.field place.target place.index value)) state) with
    | .ok applied after => table.Answers place value state.world after.world (.ok applied)
    | .error (.failed error) after => table.Answers place value state.world after.world (.error error)
    | .error (.brokeDown _) _ => True := by
  rw [Host.withAmbient, Handler.respond_eq]
  cases (Handler.field field).skip? around (.field place.target place.index value) with
  | some reason => exact .of_ne (fun same => by cases same) (fun _ _ same => by cases same)
  | none =>
    have called := cell.read?_call known scope value { state with ambient := around }
    simp only [Functor.map, EStateM.map]
    cases ended : (Handler.field field).call context (.field place.target place.index value)
        { state with ambient := around } with
    | ok _ after =>
      rw [ended] at called
      exact ⟨fun _ => called, fun none => by cases none⟩
    | error fault after =>
      rw [ended] at called
      cases fault with
      | refused error => exact ⟨fun none => (by cases none), fun _ => called⟩
      | brokeDown _ => trivial

/-- A captured command that sets a field leaves it, where the setting lands, with the value if it was
executed, and as it was if the host refused it. -/
theorem runCommand [World W] (cell : table.CellAt (field.lands place)) (sound : table.registry.Sound)
    {handle : Handle} {ambient : Ambient} {pending : PendingCommand}
    (carries : table.Carries handle place.scope ambient (.field place.target place.index value) pending
      (.field field)) (same : pending.handler = place.handler)
    {context : CallContext}
    (scope : context.scope = place.scope) (tick : Tick) {state : HostState W}
    (stands : table.registry.Stands (World.resolver state.world) place.scope place.target)
    (plain : table.registry.Stands (World.resolver state.world) place.scope value) :
    table.Answers (field.lands place) value state.world
      (Lockstep.runCommand table context (pending.stamp tick) state).2.world
      (Lockstep.runCommand table context (pending.stamp tick) state).1 := by
  have known : table.get? place.handler = some (.field field) := same ▸ carries.known
  have applied : table.apply context (pending.stamp tick).handler (pending.stamp tick).payload =
      table.perform context.debugMode (pending.stamp context.tick) := by
    rw [perform, PendingCommand.stamp, PendingCommand.stamp, carries.scope, ← scope]
  unfold Lockstep.runCommand
  rw [applied]
  cases asleep : (Handler.field field).info.debugOnly && !context.debugMode with
  | true =>
    rw [carries.asleep asleep]
    exact .of_ne (fun same => by cases same) (fun _ _ same => by cases same)
  | false =>
    obtain ⟨read, unread⟩ := carries.performs sound asleep context.tick state
    by_cases fits : ∀ part ∈ table.carried (.field field) ambient
        (.field place.target place.index value), table.registry.Fits part.1 part.2
    · have arrived : ((Handler.field field).narrow (.field place.target place.index value)).map
          (table.registry.resolve (World.resolver state.world) place.scope) =
            .field (field.lands place).target (field.lands place).index value := by
        rw [Handler.narrow, Request.map, Registry.resolve_eq_self stands,
          Registry.resolve_eq_self plain]
        rfl
      have told := cell.answers known scope (Handler.field field).name
        ((ambient.resolve table.registry (World.resolver state.world) context.scope).restrict
          (Handler.field field).info.flags) value state
      rw [read fits, arrived, ← scope]
      split at told
      next ended =>
        rw [ended]
        exact told
      next ended =>
        rw [ended]
        exact told
      next ended =>
        rw [ended]
        exact .of_ne (fun same => by cases same) (fun _ _ same => by cases same)
    · obtain ⟨source, failed⟩ := unread fits
      rw [failed]
      exact .of_ne (fun same => by cases same) (fun _ _ same => by cases same)

end HandlerTable.CellAt

end Lockstep
