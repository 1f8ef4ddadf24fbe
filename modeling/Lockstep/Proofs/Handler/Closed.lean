import Lockstep.Handler.Apply
import Lockstep.Proofs.Handler.Numbers
import Lockstep.Proofs.Handler.Request
import Lockstep.Proofs.Schema.Closed
import Lockstep.World.Lab

/-! # What handlers never miss

All that travels with a command is of types which the handlers name, and a table is not built unless these
are declared. So over a registry that was built no capture and no payload comes to a type that is not
declared (`no_type_is_missing`), whatever the values and whatever the bytes.
-/

namespace Lockstep

/-- A request is not captured because a type is not declared. -/
def CaptureError.IsUnknownType : CaptureError → Prop
  | encode _ source => source.IsUnknownType
  | _ => False

/-- A command fails because a type is not declared. -/
def ApplyFault.IsUnknownType : ApplyFault → Prop
  | failed (.decode _ source) => source.IsUnknownType
  | _ => False

theorem Handler.types_of_field {W : Type} {handler : FieldHandler W} {known : Ty → Prop}
    (each : ∀ type ∈ (Handler.field handler).types, known type) :
    known handler.target ∧ known handler.value :=
  ⟨each _ List.mem_cons_self, each _ (List.mem_cons_of_mem _ List.mem_cons_self)⟩

namespace HandlerTable

variable {W : Type} {table : HandlerTable W} {registry : Registry}

/-! ## Closed tables -/

/-- A table over a closed registry, whose handlers use declared types only; the selection is of one where a
handler needs it. -/
structure Closed (table : HandlerTable W) : Prop where
  registry : table.registry.Closed
  types : ∀ {id : HandlerId} {handler : Handler W}, table.get? id = some handler →
    ∀ type ∈ handler.types, table.registry.Knows type
  selection : ∀ {id : HandlerId} {handler : Handler W}, table.get? id = some handler →
    handler.info.flags.selection = true → table.registry.Knows table.selectionType

theorem checkHandler_eq_ok {selectionType? : Option Ty} {handler : Handler W} :
    checkHandler registry selectionType? handler = .ok () ↔
      (∀ type ∈ handler.types, registry.Knows type) ∧
        (handler.info.flags.selection = true → ∃ type, selectionType? = some type ∧ registry.Knows type) := by
  have types : (handler.types.forM fun type =>
      (registry.check type).mapError (RegistrationError.unknownType handler.name)) = .ok () ↔
        ∀ type ∈ handler.types, registry.Knows type := by
    simp only [forM_eq_ok, mapError_eq_ok, Registry.check_eq_ok]
  refine (bind_eq_ok.trans Unique.exists_iff).trans (and_congr types ?_)
  cases handler.info.flags.selection with
  | false => simp [pure, Except.pure]
  | true =>
    cases selectionType? with
    | none => simp [throw, throwThe, MonadExceptOf.throw]
    | some type => simp [mapError_eq_ok, Registry.check_eq_ok]

theorem closed_of_build {declarations : List Declaration} {selectionType? : Option Ty}
    {handlers : List (Handler W)} (declared : Registry.build declarations = .ok registry)
    (built : build registry selectionType? handlers = .ok table) : table.Closed := by
  have same := registry_of_build built
  have checked {id : HandlerId} {handler : Handler W} (found : table.get? id = some handler) :=
    checkHandler_eq_ok.mp
      ((build_eq_ok_iff.mp built).2.1 handler ((get?_eq_some_iff built).mp found).1)
  refine ⟨same ▸ Registry.closed_of_build declared, fun found => same ▸ (checked found).1,
    fun found flagged => ?_⟩
  obtain ⟨type, given, known⟩ := (checked found).2 flagged
  obtain ⟨-, -, -, rfl⟩ := build_eq_ok_iff.mp built
  cases given
  exact known

/-! ## Captures -/

theorem spares_encodeAll (closed : registry.Closed) {parts : List (Ty × Value)}
    (each : ∀ part ∈ parts, registry.Knows part.1) :
    Spares EncodeError.IsUnknownType (encodeAll registry parts) := by
  refine Spares.bind (.mapM fun part member => ?_) fun _ => .ok _
  exact Registry.spares_encode closed (each part member) part.2

theorem spares_encodeFieldCall (closed : registry.Closed) {handler : FieldHandler W}
    (each : ∀ type ∈ (Handler.field handler).types, registry.Knows type) (target : Value)
    (index : Option Int32) (value : Value) :
    Spares EncodeError.IsUnknownType (encodeFieldCall registry handler target index value) := by
  obtain ⟨known, known'⟩ := Handler.types_of_field each
  exact (Registry.spares_encode closed known target).bind fun _ =>
    (Registry.spares_encode closed known' value).bind fun _ => .ok _

theorem spares_ambient (closed : registry.Closed) {flags : ContextFlags} {selectionType : Ty}
    (known : flags.selection = true → registry.Knows selectionType) (ambient : Ambient) :
    Spares EncodeError.IsUnknownType (ambient.encode registry flags selectionType) := by
  simp only [Ambient.encode]
  split
  next flagged =>
    have known : registry.Knows (.list selectionType) := known flagged
    exact (Registry.spares_encode closed known _).bind fun _ => .ok _
  next => exact .ok _

theorem spares_encodeCall (closed : table.Closed) {id : HandlerId} {handler : Handler W}
    (found : table.get? id = some handler) {scope : ScopeId} {ambient : Ambient}
    {call : Except EncodeError Bytes} (spared : Spares EncodeError.IsUnknownType call) :
    Spares CaptureError.IsUnknownType (table.encodeCall id handler scope ambient call) := by
  have payload := (spares_ambient closed.registry (closed.selection found) ambient).bind
    fun front => spared.bind fun back => Spares.ok (front ++ back)
  simp only [encodeCall]
  split
  next => exact .ok _
  next source failed => exact .error (payload source failed)

theorem spares_slot (handle : Handle) (expected : String) :
    Spares CaptureError.IsUnknownType (table.slot handle expected) := by
  unfold slot
  split
  · exact .ok _
  · exact .error not_false

theorem spares_field (handle : Handle) : Spares CaptureError.IsUnknownType (table.field handle) := by
  refine (spares_slot handle _).bind fun id => ?_
  split
  · exact .ok _
  · exact .error not_false

theorem spares_operation (handle : Handle) :
    Spares CaptureError.IsUnknownType (table.operation handle) := by
  refine (spares_slot handle _).bind fun id => ?_
  split
  · exact .ok _
  · exact .error not_false

theorem spares_closure (handle : Handle) : Spares CaptureError.IsUnknownType (table.closure handle) := by
  refine (spares_slot handle _).bind fun id => ?_
  split
  · exact .ok _
  · exact .error not_false

theorem spares_captured (handler : ClosureHandler W) (environment : Environment) :
    Spares CaptureError.IsUnknownType (captured handler environment) := by
  refine .mapM fun entry _ => ?_
  split
  · exact .ok _
  · exact .error not_false

theorem spares_encodeRequest (closed : table.Closed) (handle : Handle) (scope : ScopeId)
    (ambient : Ambient) (request : Request) :
    Spares CaptureError.IsUnknownType (table.encodeRequest handle scope ambient request) := by
  cases request with
  | field target index value =>
    refine (spares_field handle).bind_of_ok fun ⟨id, handler⟩ found => ?_
    have found := field_eq_ok found
    exact spares_encodeCall closed found
      (spares_encodeFieldCall closed.registry (closed.types found) target index value)
  | operation target arguments =>
    refine (spares_operation handle).bind_of_ok fun ⟨id, handler⟩ found => ?_
    obtain ⟨-, found⟩ := operation_eq_ok found
    obtain ⟨known, each⟩ := List.forall_mem_cons.mp (closed.types found)
    simp only
    split
    · exact .error not_false
    · refine spares_encodeCall closed found (spares_encodeAll closed.registry ?_)
      refine List.forall_mem_cons.mpr ⟨known, fun part member => ?_⟩
      exact each part.1 (List.of_mem_zip member).1
  | closure environment =>
    refine (spares_closure handle).bind_of_ok fun ⟨id, handler⟩ found => ?_
    obtain ⟨-, found⟩ := closure_eq_ok found
    refine (spares_captured handler environment).bind_of_ok fun values same => ?_
    obtain ⟨-, rfl⟩ := captured_eq_ok same
    refine spares_encodeCall closed found (spares_encodeAll closed.registry fun part member => ?_)
    obtain ⟨entry, listed, rfl⟩ := List.mem_map.mp member
    exact closed.types found entry.2 (List.mem_map_of_mem listed)

theorem spares_checkDebug (debugMode : Bool) (handler : Handler W) :
    Spares CaptureError.IsUnknownType (checkDebug debugMode handler) := by
  unfold checkDebug
  split
  · exact .error not_false
  · exact .ok _

theorem spares_capture (closed : table.Closed) (debugMode : Bool) (throttle : Throttle) (now : Nat)
    (handle : Handle) (scope : ScopeId) (ambient : Ambient) (request : Request) :
    Spares CaptureError.IsUnknownType
      (table.capture debugMode throttle now handle scope ambient request) := by
  have encoded := spares_encodeRequest closed handle scope ambient request
  cases request with
  | field target index value =>
    refine Spares.bind ((spares_field handle).bind fun _ => ?_) fun _ => .ok _
    exact (spares_checkDebug _ _).bind fun _ => encoded
  | operation target arguments =>
    refine (spares_operation handle).bind_of_ok fun ⟨id, handler⟩ found => ?_
    obtain ⟨-, found⟩ := operation_eq_ok found
    refine (spares_checkDebug _ _).bind fun _ => encoded.bind fun pending => ?_
    split
    · exact .ok _
    · -- the key of the throttle is written once more, at the type of the target
      refine Spares.bind ?_ fun _ => .ok _
      have known := closed.types found handler.target List.mem_cons_self
      intro error failed
      obtain ⟨source, refused, rfl⟩ := mapError_eq_error.mp failed
      exact Registry.spares_encode closed.registry known target source refused
  | closure environment =>
    refine Spares.bind ((spares_closure handle).bind fun _ => ?_) fun _ => .ok _
    exact (spares_checkDebug _ _).bind fun _ => encoded

/-! ## Payloads -/

theorem spares_decodeAll {read : ValueReader} {types : List Ty}
    (each : ∀ type ∈ types, Decoder.Spares DecodeError.IsUnknownType (read type)) :
    Decoder.Spares DecodeError.IsUnknownType (decodeAll read types) := by
  induction types with
  | nil => exact .pure _
  | cons type types ih =>
    obtain ⟨first, rest⟩ := List.forall_mem_cons.mp each
    exact first.bind fun _ => (ih rest).bind fun _ => .pure _

theorem spares_fieldCall {handler : FieldHandler W} {read : ValueReader}
    (first : Decoder.Spares DecodeError.IsUnknownType (read handler.target))
    (last : Decoder.Spares DecodeError.IsUnknownType (read handler.value)) :
    Decoder.Spares DecodeError.IsUnknownType (handler.decodeCall read) := by
  have value (target : Value) (index : Option Int32) :=
    last.bind fun value => Decoder.Spares.pure (FieldCall.mk target index value)
  refine first.bind fun target => ?_
  split
  · exact ((Registry.spares_lift _).map _).bind (value target)
  · exact (Decoder.Spares.pure none).bind (value target)

theorem spares_decodeAmbient (closed : registry.Closed) {flags : ContextFlags} {selectionType : Ty}
    (known : flags.selection = true → registry.Knows selectionType) (resolver : Resolver)
    (context : WireContext) :
    Decoder.Spares DecodeError.IsUnknownType
      (Ambient.decode registry resolver context flags selectionType) := by
  rw [Ambient.decode_eq]
  refine .bind ?mouse fun _ => .bind ?selection fun _ => .bind ?modifier fun _ => .pure _
  case selection =>
    split
    next flagged =>
      have known : registry.Knows (.list selectionType) := known flagged
      exact (Registry.spares_decode closed known resolver context).map _
    next => exact .pure _
  case mouse | modifier =>
    split
    · exact Registry.spares_lift _
    · exact .pure _

/-- A command misses no type if neither its ambient input nor its call does: what the host may refuse is
another matter. -/
theorem applyCall_spares {γ : Type} [World W] (closed : table.Closed) {id : HandlerId}
    {handler : Handler W} (found : table.get? id = some handler) {context : CallContext}
    {wire : WireContext} {payload : Bytes} {decodeCall : ValueReader → Decoder DecodeError γ}
    {run : CallContext → γ → Host HostFault W Applied}
    (spared : ∀ resolver, Decoder.Spares DecodeError.IsUnknownType
      (decodeCall (table.registry.decode resolver wire)))
    {state after : HostState W} {fault : ApplyFault}
    (failed : table.applyCall handler context wire payload decodeCall run state = .error fault after) :
    ¬fault.IsUnknownType := by
  have reading := (spares_decodeAmbient closed.registry (closed.selection found)
    (World.resolver state.world) wire).bind fun ambient =>
      (spared (World.resolver state.world)).bind fun call => Decoder.Spares.pure (ambient, call)
  unfold applyCall at failed
  simp only at failed
  split at failed
  next source rest read =>
    cases failed
    exact reading _ _ _ read
  next =>
    split at failed
    · split at failed
      next => cases failed
      next cause _ _ =>
        -- a fault of the host is a refusal or a breakdown, never an error of reading
        cases failed
        cases cause <;> exact not_false
    · cases failed
      exact not_false

theorem apply_spares [World W] (closed : table.Closed) {context : CallContext} {id : HandlerId}
    {payload : Bytes} {state after : HostState W} {fault : ApplyFault}
    (failed : table.apply context id payload state = .error fault after) : ¬fault.IsUnknownType := by
  cases found : table.get? id with
  | none =>
    simp only [apply, found] at failed
    cases failed
    exact not_false
  | some handler =>
    simp only [apply, found] at failed
    split at failed
    next => cases failed
    next =>
      have types := closed.types found
      have reads {resolver wire} (type : Ty) (known : table.registry.Knows type) :=
        Registry.spares_decode closed.registry known resolver wire
      cases handler with
      | field handler =>
        obtain ⟨known, known'⟩ := Handler.types_of_field types
        refine applyCall_spares closed found (fun resolver => ?_) failed
        exact spares_fieldCall (reads _ known) (reads _ known')
      | operation handler =>
        obtain ⟨known, each⟩ := List.forall_mem_cons.mp types
        refine applyCall_spares closed found (fun resolver => ?_) failed
        exact (reads _ known).bind fun _ =>
          (spares_decodeAll fun type member => reads type (each type member)).bind fun _ => .pure _
      | closure handler =>
        refine applyCall_spares closed found (fun resolver => ?_) failed
        exact (spares_decodeAll fun type member => reads type (types type member)).bind fun _ => .pure _

/-! ## Built tables -/

/-- No type is missing where a table was built over a registry that was built: no capture and no payload
comes to a type that is not declared, the implementations of interfaces are numbered alike by writers and
readers, and every discriminant can be written. -/
theorem no_type_is_missing [World W] {declarations : List Declaration} {selectionType? : Option Ty}
    {handlers : List (Handler W)} (declared : Registry.build declarations = .ok registry)
    (built : build registry selectionType? handlers = .ok table) :
    (∀ debugMode throttle now handle scope ambient request error,
        table.capture debugMode throttle now handle scope ambient request = .error error ∨
          table.encodeRequest handle scope ambient request = .error error → ¬error.IsUnknownType) ∧
      (∀ context id payload state fault after,
        table.apply context id payload state = .error fault after → ¬fault.IsUnknownType) ∧
      (∀ name implementations, registry.descriptor? name = some (.interface implementations) →
        registry.NumbersImplementations name implementations) ∧
      ∀ name repr discriminants, registry.descriptor? name = some (.enumeration repr discriminants) →
        ∀ discriminant ∈ discriminants, ∃ scalar bytes, repr.ofInt? discriminant = some scalar ∧
          scalar.encodeValue = .ok bytes ∧
          registry.encode (.named name) (.enumeration name discriminant) = .ok bytes := by
  have closed := closed_of_build declared built
  have types := Registry.closed_of_build declared
  refine ⟨fun debugMode throttle now handle scope ambient request error => ?_,
    fun context id payload state fault after failed => apply_spares closed failed,
    fun name implementations found => types.numbersImplementations found,
    fun name repr discriminants found discriminant member =>
      types.exists_encode_discriminant found member⟩
  rintro (failed | failed)
  · exact spares_capture closed debugMode throttle now handle scope ambient request error failed
  · exact spares_encodeRequest closed handle scope ambient request error failed

end HandlerTable

/-! ## Tasks are assigned -/

/-- Gives a task to somebody, with an urgency. -/
def assign : LabOperation where
  name := "assign"
  target := .named "Task"
  arguments := [.named "Urgency"]
  script := []

def assignTable : HandlerTable Lab :=
  (HandlerTable.build Registry.taskRegistry none
    (Lab.handlers [.operation assign])).toOption.get (by decide +kernel)

/-- A task that is none and a payload that makes no sense are refused, but not for want of a type; the
orders are the tasks, and the highest urgency has its byte. -/
theorem assign_misses_no_type :
    assignTable.encodeRequest 0 (.map 2) {} (.operation (.object "Wish" .unit) [.enumeration "Urgency" 2]) ≠
        .error (.encode "assign" (.unknownType "Wish")) ∧
      assignTable.apply ⟨.map 2, 5, false⟩ 0 [7, 0] ⟨{}, default, {}⟩ ≠
        .error (.failed (.decode "assign" (.unknownType "Task"))) ⟨{}, default, {}⟩ ∧
      Registry.taskRegistry.NumbersImplementations "Task" ["Order"] ∧
      ∃ scalar bytes, ScalarKind.u8.ofInt? 2 = some scalar ∧ scalar.encodeValue = .ok bytes ∧
        Registry.taskRegistry.encode (.named "Urgency") (.enumeration "Urgency" 2) = .ok bytes := by
  have declared : Registry.build Registry.taskTypes = .ok Registry.taskRegistry := by rfl
  have built : HandlerTable.build Registry.taskRegistry none (Lab.handlers [.operation assign]) =
      .ok assignTable := by rfl
  obtain ⟨captures, applies, numbers, writes⟩ := HandlerTable.no_type_is_missing declared built
  refine ⟨fun failed => ?_, fun failed => ?_, numbers "Task" ["Order"] (by decide +kernel),
    writes "Urgency" .u8 [0, 1, 2] (by decide +kernel) 2 (by decide)⟩
  · exact captures false {} 0 _ _ _ _ _ (.inr failed) trivial
  · exact applies _ _ _ _ _ _ failed trivial

end Lockstep
