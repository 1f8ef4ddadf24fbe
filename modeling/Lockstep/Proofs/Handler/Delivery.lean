import Lockstep.Command.Frame
import Lockstep.Handler.Apply
import Lockstep.Proofs.Handler.Request

/-! # What a delivered command does

A command comes with the delivery as the payload that was captured. The values that it carries are read
if they fit, and then the handler responds to the request as it was made, under the ambient input that
was flagged: either one of its rules passes the request over, or the host is called once.
-/

namespace Lockstep

open Decoder

/-! ## Requests as they arrive -/

/-- A request with each value replaced by another. -/
def Request.map (f : Value → Value) : Request → Request
  | field target index value => .field (f target) index (f value)
  | operation target arguments => .operation (f target) (arguments.map f)
  | closure environment => .closure (environment.mapValues fun _ => f)

namespace Handler

variable {W : Type}

/-- A request as a handler gets it. An indexed field gets an index, zero where none was given, and no
other field does; a closure gets the variables of its shape and no others. -/
def narrow : Handler W → Request → Request
  | .field handler, .field target index value =>
    .field target (if handler.indexed then some (index.getD 0) else none) value
  | .closure handler, .closure environment =>
    .closure (environment.filter fun path _ => (handler.shape.fields.map (·.1)).contains path)
  | _, request => request

/-- Why a handler passes a request over, by the rules that it declares. -/
def skip? : Handler W → Ambient → Request → Option SkipReason
  | .field handler, _, .field target _ _ =>
    if isAbsent handler.target target then some .targetAbsent else none
  | .operation handler, ambient, .operation target arguments =>
    if isAbsent handler.target target then some .targetAbsent
    else match if handler.cancelIfAbsent then handler.absentArgument? arguments else none with
      | some index => some (.argumentAbsent index)
      | none =>
        if handler.cancelIfNoSelection && ambient.selection.isEmpty then some .noSelection else none
  | _, _, _ => none

/-- What the host is called for. -/
def call : Handler W → CallContext → Request → Host HostFault W Unit
  | .field handler, context, .field target index value => do
    FieldHandler.runHook handler.preHook context target
    Host.onWorld (handler.set context.scope target index value)
    FieldHandler.runHook handler.postHook context target
  | .operation handler, context, .operation target arguments =>
    handler.invoke context target arguments
  | .closure handler, context, .closure environment => handler.invoke context environment
  | _, _, _ => pure ()

/-- Pass a request over or call the host for it. -/
def respond (handler : Handler W) (context : CallContext) (request : Request) :
    Host HostFault W Applied := do
  match handler.skip? (← get).ambient request with
  | some reason => return .skipped reason
  | none =>
    handler.call context request
    return .executed

end Handler

section Runs

variable {W : Type} (context : CallContext)

theorem Handler.respond_eq (handler : Handler W) (request : Request) (state : HostState W) :
    handler.respond context request state =
      match handler.skip? state.ambient request with
      | some reason => .ok (.skipped reason) state
      | none => ((fun _ => Applied.executed) <$> handler.call context request) state := by
  change (match handler.skip? state.ambient request with
    | some reason => pure (.skipped reason)
    | none => do
      handler.call context request
      pure .executed : Host HostFault W Applied) state = _
  cases handler.skip? state.ambient request with
  | some reason => rfl
  | none => rfl

theorem FieldHandler.run_eq (handler : FieldHandler W) (call : FieldCall) :
    handler.run context call =
      (Handler.field handler).respond context (.field call.target call.index call.value) := by
  funext state
  rw [Handler.respond_eq, Handler.skip?, FieldHandler.run]
  split
  · rfl
  · simp [Handler.call]

theorem OperationHandler.run_eq (handler : OperationHandler W) (call : OperationCall) :
    handler.run context call =
      (Handler.operation handler).respond context (.operation call.target call.arguments) := by
  funext state
  rw [Handler.respond_eq, Handler.skip?, OperationHandler.run]
  split
  · rfl
  · cases if handler.cancelIfAbsent then handler.absentArgument? call.arguments else none with
    | some index => rfl
    | none =>
      change (if (handler.cancelIfNoSelection && state.ambient.selection.isEmpty) = true then _
        else _ : Host HostFault W Applied) state = _
      split
      · rfl
      · rfl

theorem ClosureHandler.run_eq (handler : ClosureHandler W) (environment : Environment) :
    handler.run context environment =
      (Handler.closure handler).respond context (.closure environment) := by
  rfl

end Runs

/-! ## Reading calls -/

section Reading

variable {W : Type} {registry : Registry} {bytes : Bytes}

theorem encodeAll_cons_eq_ok {part : Ty × Value} {parts : List (Ty × Value)}
    (written : HandlerTable.encodeAll registry (part :: parts) = .ok bytes) :
    ∃ first rest, registry.encode part.1 part.2 = .ok first ∧
      HandlerTable.encodeAll registry parts = .ok rest ∧ bytes = first ++ rest := by
  obtain ⟨chunks, mapped, flat⟩ := bind_eq_ok.mp written
  cases flat
  rw [List.mapM_cons] at mapped
  obtain ⟨first, head, mapped⟩ := bind_eq_ok.mp mapped
  obtain ⟨rest, tail, flat⟩ := bind_eq_ok.mp mapped
  cases flat
  exact ⟨first, rest.flatten, head, bind_eq_ok.mpr ⟨rest, tail, rfl⟩, List.flatten_cons⟩

/-- Several values are read, each at its type, exactly if each fits. -/
theorem readsIff_decodeAll (sound : registry.Sound) {parts : List (Ty × Value)}
    (written : HandlerTable.encodeAll registry parts = .ok bytes) (resolver : Resolver)
    (context : WireContext) :
    ReadsIff (decodeAll (registry.decode resolver context) (parts.map (·.1))) bytes
      (∀ part ∈ parts, registry.Fits part.1 part.2)
      (parts.map fun part => registry.resolve resolver context.lookupScope part.2) := by
  induction parts generalizing bytes with
  | nil =>
    cases written
    exact (ReadsIff.of_reads (.pure [])).limits (by simp)
  | cons part parts ih =>
    obtain ⟨first, rest, head, tail, rfl⟩ := encodeAll_cons_eq_ok written
    rw [List.forall_mem_cons, List.map_cons, List.map_cons, decodeAll]
    exact (registry.readsIff_decode sound head resolver context).bind ((ih tail).bind_last (.pure _))

theorem readsIff_fieldCall (sound : registry.Sound) {handler : FieldHandler W} {target value : Value}
    {index : Option Int32}
    (written : HandlerTable.encodeFieldCall registry handler target index value = .ok bytes)
    (resolver : Resolver) (context : WireContext) :
    ReadsIff (handler.decodeCall (registry.decode resolver context)) bytes
      (∀ part ∈ (Handler.field handler).parts (.field target index value),
        registry.Fits part.1 part.2)
      ⟨registry.resolve resolver context.lookupScope target,
        if handler.indexed then some (index.getD 0) else none,
        registry.resolve resolver context.lookupScope value⟩ := by
  obtain ⟨first, head, written⟩ := bind_eq_ok.mp written
  obtain ⟨last, tail, flat⟩ := bind_eq_ok.mp written
  cases flat
  have front := registry.readsIff_decode sound head resolver context
  have back := registry.readsIff_decode sound tail resolver context
  rw [Handler.parts, List.forall_mem_cons, List.forall_mem_singleton]
  unfold FieldHandler.decodeCall
  cases handler.indexed with
  | false => exact front.bind (back.bind_last (.pure _))
  | true =>
    exact front.bind (.after ((reads_int32 (index.getD 0)).lift.map some) (back.bind_last (.pure _)))

theorem readsIff_operationCall (sound : registry.Sound) {handler : OperationHandler W}
    {target : Value} {arguments : List Value}
    (count : arguments.length = handler.arguments.length)
    (written : HandlerTable.encodeAll registry
      ((Handler.operation handler).parts (.operation target arguments)) = .ok bytes)
    (resolver : Resolver) (context : WireContext) :
    ReadsIff (handler.decodeCall (registry.decode resolver context)) bytes
      (∀ part ∈ (Handler.operation handler).parts (.operation target arguments),
        registry.Fits part.1 part.2)
      ⟨registry.resolve resolver context.lookupScope target,
        arguments.map (registry.resolve resolver context.lookupScope)⟩ := by
  obtain ⟨first, rest, head, tail, rfl⟩ := encodeAll_cons_eq_ok written
  have front := registry.readsIff_decode sound head resolver context
  have back := readsIff_decodeAll sound tail resolver context
  have types : (handler.arguments.zip arguments).map (·.1) = handler.arguments :=
    List.map_fst_zip (Nat.le_of_eq count.symm)
  have values : (handler.arguments.zip arguments).map
      (fun part => registry.resolve resolver context.lookupScope part.2) =
      arguments.map (registry.resolve resolver context.lookupScope) := calc
    _ = ((handler.arguments.zip arguments).map (·.2)).map
        (registry.resolve resolver context.lookupScope) := List.map_map.symm
    _ = _ := by rw [List.map_snd_zip (Nat.le_of_eq count)]
  rw [types, values] at back
  rw [Handler.parts, List.forall_mem_cons]
  exact front.bind (back.bind_last (.pure _))

/-- The variables of a closure are those of its shape, however often one is listed. -/
theorem ofList_shape {handler : ClosureHandler W} {environment : Environment}
    (complete : (Handler.closure handler).takes (.closure environment) = true) (f : Value → Value) :
    SortedMap.ofList ((handler.shape.fields.map (·.1)).zip
      (((Handler.closure handler).parts (.closure environment)).map fun part => f part.2)) =
      (environment.filter fun path _ => (handler.shape.fields.map (·.1)).contains path).mapValues
        fun _ => f := by
  have entries : (handler.shape.fields.map (·.1)).zip
      (((Handler.closure handler).parts (.closure environment)).map fun part => f part.2) =
      (handler.shape.fields.map (·.1)).map fun path =>
        (path, f ((environment.get? path).getD .null)) := by
    rw [Handler.parts, List.map_map, List.zip_map', List.map_map]
    rfl
  rw [entries]
  apply SortedMap.ext
  intro path
  rw [SortedMap.get?_ofList_map, SortedMap.get?_mapValues, SortedMap.get?_filter]
  by_cases listed : path ∈ handler.shape.fields.map (·.1)
  · obtain ⟨entry, member, rfl⟩ := List.mem_map.mp listed
    have present := List.all_eq_true.mp complete entry member
    obtain ⟨value, found⟩ := Option.isSome_iff_exists.mp present
    simp [found, listed, Option.filter_some]
  · simp [listed]

theorem readsIff_closureCall (sound : registry.Sound) {handler : ClosureHandler W}
    {environment : Environment}
    (complete : (Handler.closure handler).takes (.closure environment) = true)
    (written : HandlerTable.encodeAll registry
      ((Handler.closure handler).parts (.closure environment)) = .ok bytes)
    (resolver : Resolver) (context : WireContext) :
    ReadsIff (handler.decodeCall (registry.decode resolver context)) bytes
      (∀ part ∈ (Handler.closure handler).parts (.closure environment),
        registry.Fits part.1 part.2)
      ((environment.filter fun path _ =>
        (handler.shape.fields.map (·.1)).contains path).mapValues
          fun _ => registry.resolve resolver context.lookupScope) := by
  have values := readsIff_decodeAll sound written resolver context
  have types : ((Handler.closure handler).parts (.closure environment)).map (·.1) =
      handler.shape.fields.map (·.2) := by
    rw [Handler.parts, List.map_map]
    rfl
  rw [types] at values
  rw [← ofList_shape complete]
  exact values.bind_last (.pure _)

end Reading

/-! ## Applying commands -/

/-- The payload of a command was no payload of its handler. -/
def CommandError.isUnreadable : CommandError → Bool
  | decode _ _ | trailingBytes _ _ => true
  | _ => false

namespace HandlerTable

variable {W : Type} {table : HandlerTable W} {handle : Handle} {handler : Handler W}
  {scope : ScopeId} {ambient : Ambient} {request : Request} {pending : PendingCommand}

/-- How a call of the host ends for its handler: a fault of the host is one of the handler. -/
def settle (name : String) :
    EStateM.Result HostFault (HostState W) Applied → EStateM.Result ApplyFault (HostState W) Applied
  | .ok applied after => .ok applied after
  | .error fault after => .error (faultOf name fault) after

/-- A command failed because its payload could not be read. -/
def Unreadable (result : EStateM.Result ApplyFault (HostState W) Applied) : Prop :=
  ∃ error after, result = .error (.failed error) after ∧ error.isUnreadable = true

instance : DecidablePred (Unreadable (W := W))
  | .error (.failed error) after =>
    decidable_of_iff (error.isUnreadable = true)
      ⟨fun unreadable => ⟨error, after, rfl, unreadable⟩,
        fun ⟨_, _, same, unreadable⟩ => by cases same; exact unreadable⟩
  | .error (.brokeDown _) _ => .isFalse fun ⟨_, _, same, _⟩ => by cases same
  | .ok _ _ => .isFalse fun ⟨_, _, same, _⟩ => by cases same

theorem not_unreadable_ok (applied : Applied) (after : HostState W) :
    ¬Unreadable (.ok applied after) := by
  rintro ⟨_, _, same, _⟩
  cases same

/-- Whatever a host does, it was reached by a payload that could be read. -/
theorem not_unreadable_settle (name : String)
    (result : EStateM.Result HostFault (HostState W) Applied) : ¬Unreadable (settle name result) := by
  rintro ⟨error, after, same, unreadable⟩
  cases result with
  | ok applied after => cases same
  | error fault after =>
    cases fault with
    | refused refusal =>
      cases same
      cases unreadable
    | brokeDown breakdown => cases same

/-- Apply a command in its scope at its tick. -/
def perform [World W] (table : HandlerTable W) (debugMode : Bool) (command : Command) :
    Host ApplyFault W Applied :=
  table.apply ⟨command.scope, command.tick, debugMode⟩ command.handler command.payload

/-- A payload that is read to its end is run, and one that is refused fails at once. -/
theorem applyCall_of_readsIff [World W] {γ : Type} {wire : WireContext}
    {decodeCall : ValueReader → Decoder DecodeError γ} {front back : Bytes} {within within' : Prop}
    {around : Ambient} {call : γ} {state : HostState W}
    (before : ReadsIff (Ambient.decode table.registry (World.resolver state.world) wire
      handler.info.flags table.selectionType) front within around)
    (behind : ReadsIff (decodeCall (table.registry.decode (World.resolver state.world) wire)) back
      within' call) (run : CallContext → γ → Host HostFault W Applied) (context : CallContext) :
    (within ∧ within' → table.applyCall handler context wire (front ++ back) decodeCall run state =
      settle handler.name (Host.withAmbient around (run context call) state)) ∧
    (¬(within ∧ within') → ∃ source,
      table.applyCall handler context wire (front ++ back) decodeCall run state =
        .error (.failed (.decode handler.name source)) state) := by
  have payload : ReadsIff (do
      let ambient ← Ambient.decode table.registry (World.resolver state.world) wire
        handler.info.flags table.selectionType
      let call ← decodeCall (table.registry.decode (World.resolver state.world) wire)
      return (ambient, call)) (front ++ back) (within ∧ within') (around, call) :=
    before.bind (behind.bind_last (.pure _))
  constructor
  · intro inside
    have read := payload.reads inside []
    rw [List.append_nil] at read
    simp only [applyCall, read]
    rfl
  · intro outside
    obtain ⟨source, left, refused⟩ := payload.refuses outside []
    rw [List.append_nil] at refused
    refine ⟨source, ?_⟩
    simp only [applyCall, refused]

/-- Outside the debug mode a handler that waits for it passes everything over. -/
theorem Carries.asleep [World W] (carries : table.Carries handle scope ambient request pending handler)
    {debugMode : Bool} (asleep : (handler.info.debugOnly && !debugMode) = true) (tick : Tick)
    (state : HostState W) :
    table.perform debugMode (pending.stamp tick) state = .ok (.skipped .debugDisabled) state := by
  rw [perform, PendingCommand.stamp, apply, carries.known]
  simp only [asleep, if_true]
  rfl

/-- A command whose values fit is its handler's response to the request as it arrives. Any other one
cannot be read. -/
theorem Carries.performs [World W] (carries : table.Carries handle scope ambient request pending handler)
    (sound : table.registry.Sound) {debugMode : Bool}
    (awake : (handler.info.debugOnly && !debugMode) = false) (tick : Tick) (state : HostState W) :
    ((∀ part ∈ table.carried handler ambient request, table.registry.Fits part.1 part.2) →
      table.perform debugMode (pending.stamp tick) state =
        settle handler.name (Host.withAmbient
          ((ambient.resolve table.registry (World.resolver state.world) scope).restrict
            handler.info.flags)
          (handler.respond ⟨scope, tick, debugMode⟩ ((handler.narrow request).map
            (table.registry.resolve (World.resolver state.world) scope))) state)) ∧
    ((¬∀ part ∈ table.carried handler ambient request, table.registry.Fits part.1 part.2) →
      ∃ source, table.perform debugMode (pending.stamp tick) state =
        .error (.failed (.decode handler.name source)) state) := by
  obtain ⟨front, back, left, right, payload⟩ := carries.payload
  have takes := carries.takes
  rw [carried, List.forall_mem_append, perform, PendingCommand.stamp, carries.scope, payload, apply,
    carries.known]
  simp only [awake, Bool.false_eq_true, if_false]
  -- Of what surrounds the payload only the scope counts, in which references are looked up.
  have look : (((WireContext.ofScope scope).withHandler pending.handler).withTick
    tick).lookupScope = scope := rfl
  generalize ((WireContext.ofScope scope).withHandler pending.handler).withTick tick = wire at look ⊢
  have before := Ambient.readsIff sound left (World.resolver state.world) wire
  rw [look] at before
  cases handler with
  | field field =>
    cases request with
    | field target index value =>
      have behind := readsIff_fieldCall sound right (World.resolver state.world) wire
      have applied := applyCall_of_readsIff before behind field.run ⟨scope, tick, debugMode⟩
      rw [FieldHandler.run_eq, look] at applied
      exact applied
    | _ => cases takes
  | operation operation =>
    cases request with
    | operation target arguments =>
      have behind := readsIff_operationCall sound (beq_iff_eq.mp takes) right
        (World.resolver state.world) wire
      have applied := applyCall_of_readsIff before behind operation.run ⟨scope, tick, debugMode⟩
      rw [OperationHandler.run_eq, look] at applied
      exact applied
    | _ => cases takes
  | closure closure =>
    cases request with
    | closure environment =>
      have behind := readsIff_closureCall sound takes right (World.resolver state.world) wire
      have applied := applyCall_of_readsIff before behind closure.run ⟨scope, tick, debugMode⟩
      rw [ClosureHandler.run_eq, look] at applied
      exact applied
    | _ => cases takes

end HandlerTable

/-! ## Deliveries -/

/-- A delivery brings the command that was captured, stamped. -/
theorem Command.ofDelivery_encode (pending : PendingCommand) (tick : Tick) :
    Command.ofDelivery pending.scope tick pending.encode = .ok (pending.stamp tick) := by
  refine outcome_eq_ok.mpr ⟨[], Decoder.bind_eq_ok.mpr ⟨pending.handler, pending.payload, ?_, rfl⟩⟩
  exact reads_uint32 pending.handler pending.payload

end Lockstep
