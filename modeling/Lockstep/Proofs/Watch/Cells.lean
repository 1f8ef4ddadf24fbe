import Lockstep.Peer.Tick
import Lockstep.Peer.Watch
import Lockstep.Proofs.Format.Reading
import Lockstep.Proofs.Schema.Equality

/-! # Fields as cells

A host is easy to reason about if its fields are cells of their own: what is set is what is got,
nothing else changes, and ticks and hooks keep their hands off. `Cells` is the agreement that such a
host keeps; under it a list of commands leaves in each cell what the last of them set there.
-/

namespace Lockstep

/-- A field of a target: what a watch is on, and what a command sets. -/
structure Place where
  handler : HandlerId
  scope : ScopeId
  target : Value
  index : Option Int32
  deriving DecidableEq

/-- The state that an action leaves, however it ends. -/
def stateAfter {ε σ α : Type} : EStateM.Result ε σ α → σ
  | .ok _ state => state
  | .error _ state => state

theorem stateAfter_bind {ε σ α β : Type} (first : EStateM ε σ α) (next : α → EStateM ε σ β)
    (state : σ) :
    stateAfter ((first >>= next) state) =
      match first state with
      | .ok value state => stateAfter (next value state)
      | .error _ state => state := by
  change stateAfter (EStateM.bind first next state) = _
  rw [EStateM.bind]
  cases first state with
  | ok value state => rfl
  | error error state => rfl

variable {W : Type}

theorem stateAfter_onWorld {ε α : Type} (action : EStateM ε W α) (state : HostState W) :
    (stateAfter (Host.onWorld action state)).world = stateAfter (action state.world) := by
  rw [Host.onWorld]
  cases action state.world with
  | ok _ _ => rfl
  | error _ _ => rfl

theorem stateAfter_withAmbient {ε α : Type} (ambient : Ambient) (body : Host ε W α)
    (state : HostState W) :
    (stateAfter (Host.withAmbient ambient body state)).world =
      (stateAfter (body { state with ambient })).world := by
  rw [Host.withAmbient]
  cases body { state with ambient } with
  | ok _ _ => rfl
  | error _ _ => rfl

/-- A hook leaves what it leaves, also where it breaks down. -/
theorem FieldHandler.stateAfter_runHook (hook : Hook W) (context : CallContext) (target : Value)
    (state : HostState W) :
    stateAfter (FieldHandler.runHook (some hook) context target state) =
      stateAfter (hook context target state) := by
  rw [FieldHandler.runHook, Host.unrefusable]
  cases hook context target state with
  | ok _ _ => rfl
  | error _ _ => rfl

/-- What a world shows at a place. -/
def HandlerTable.read? (table : HandlerTable W) (world : W) (place : Place) : Option Value :=
  match table.get? place.handler with
  | some (.field field) => field.get world place.scope place.target place.index
  | _ => none

theorem HandlerTable.read?_eq {table : HandlerTable W} (place : Place) {field : FieldHandler W}
    (known : table.get? place.handler = some (.field field)) (world : W) :
    table.read? world place = field.get world place.scope place.target place.index := by
  rw [HandlerTable.read?, known]

/-- A host whose fields are cells of their own. -/
structure Cells [World W] (table : HandlerTable W) where
  /-- The worlds that can come about. -/
  valid : W → Prop
  /-- The places that exist. -/
  there : Place → Prop
  /-- What may stand in the fields of a handler. -/
  admits : HandlerId → Value → Prop
  floatFree {id : HandlerId} {value : Value} : admits id value → value.isFloatFree = true
  /-- Whatever is of the type of a field may stand in it. -/
  declared {id : HandlerId} {field : FieldHandler W} {resolver : Resolver}
    {context : WireContext} {bytes rest : Bytes} {value : Value} : table.get? id = some (.field field) →
      table.registry.decode resolver context field.value bytes = .ok value rest → admits id value
  holds {world : W} {place : Place} : valid world → there place →
    ∃ value, table.read? world place = some value ∧ admits place.handler value
  nowhere {world : W} {place : Place} : valid world → ¬ there place → table.read? world place = none
  set_self {world : W} {place : Place} {field : FieldHandler W} {value : Value} : valid world →
    table.get? place.handler = some (.field field) → there place → admits place.handler value →
      ∃ next, field.set place.scope place.target place.index value world = .ok () next ∧
        table.read? next place = some value
  set_other {world : W} {place : Place} {field : FieldHandler W} {value : Value} : valid world →
    table.get? place.handler = some (.field field) → admits place.handler value →
      valid (stateAfter (field.set place.scope place.target place.index value world)) ∧
        ∀ other, other ≠ place →
          table.read?
            (stateAfter (field.set place.scope place.target place.index value world)) other =
            table.read? world other
  hook {id : HandlerId} {field : FieldHandler W} {hook : Hook W} {context : CallContext}
    {target : Value} {state : HostState W} : valid state.world → table.get? id = some (.field field) →
      field.preHook = some hook ∨ field.postHook = some hook →
        valid (stateAfter (hook context target state)).world ∧
          ∀ place, table.read? (stateAfter (hook context target state)).world place =
            table.read? state.world place
  tick {context : CallContext} {state : HostState W} : valid state.world →
    valid (World.tickScope context state).world ∧
      ∀ place, table.read? (World.tickScope context state).world place =
        table.read? state.world place

namespace Cells

variable [World W] {table : HandlerTable W}

/-- An edit of one field: the world stays such as it may be, and shows the same at all other
places. -/
def Edits (cells : Cells table) (place : Place) (change : W → W) : Prop :=
  ∀ world, cells.valid world → cells.valid (change world) ∧
    ∀ other, other ≠ place → table.read? (change world) other = table.read? world other

end Cells

/-- Fields that are cells of their own as far as watches can tell, whatever commands, hooks and ticks do. A
field may go by more than one place, such as one with an index that the host does not look at. -/
structure FieldCells (table : HandlerTable W) where
  valid : W → Prop
  there : Place → Prop
  admits : HandlerId → Value → Prop
  /-- Of the places that a field goes by, the one that it is known by. -/
  canonical : Place → Place
  floatFree {id : HandlerId} {value : Value} : admits id value → value.isFloatFree = true
  holds {world : W} {place : Place} : valid world → there place →
    ∃ value, table.read? world place = some value ∧ admits place.handler value
  alike {world : W} (place : Place) : valid world →
    table.read? world place = table.read? world (canonical place)
  nowhere {world : W} {place : Place} : valid world → ¬ there (canonical place) →
    table.read? world place = none
  set_self {world : W} {place : Place} {field : FieldHandler W} {value : Value} : valid world →
    table.get? place.handler = some (.field field) → there place → admits place.handler value →
      ∃ next, field.set place.scope place.target place.index value world = .ok () next ∧
        table.read? next place = some value
  set_other {world : W} {place : Place} {field : FieldHandler W} {value : Value} : valid world →
    table.get? place.handler = some (.field field) → there place → admits place.handler value →
      valid (stateAfter (field.set place.scope place.target place.index value world)) ∧
        ∀ other, there other → other ≠ place →
          table.read?
            (stateAfter (field.set place.scope place.target place.index value world)) other =
            table.read? world other

namespace FieldCells

variable {table : HandlerTable W}

/-- Something has happened at one place, and nothing in other fields. -/
structure Moves (cells : FieldCells table) (place : Place) (world next : W) : Prop where
  valid : cells.valid next
  elsewhere {other : Place} : cells.there other → other ≠ place →
    table.read? next other = table.read? world other

/-- A field that is there takes what it admits, and shows it. -/
theorem set (cells : FieldCells table) {place : Place} {field : FieldHandler W} {value : Value} {world : W}
    (valid : cells.valid world) (known : table.get? place.handler = some (.field field))
    (there : cells.there place) (admitted : cells.admits place.handler value) :
    ∃ next, field.set place.scope place.target place.index value world = .ok () next ∧
      cells.Moves place world next ∧ table.read? next place = some value := by
  obtain ⟨next, written, shown⟩ := cells.set_self valid known there admitted
  have others := cells.set_other valid known there admitted
  rw [written] at others
  exact ⟨next, written, ⟨others.1, others.2 _⟩, shown⟩

/-- An edit of one field, on whatever world. -/
def Edits (cells : FieldCells table) (place : Place) (change : W → W) : Prop :=
  ∀ world, cells.valid world → cells.Moves place world (change world)

/-- A place is the one that its field is known by. -/
def Knows (cells : FieldCells table) (place : Place) : Prop := cells.canonical place = place

/-- Where no field is, nothing is shown. -/
theorem Knows.nowhere {cells : FieldCells table} {place : Place} {world : W} (known : cells.Knows place)
    (valid : cells.valid world) (gone : ¬ cells.there place) : table.read? world place = none :=
  cells.nowhere valid fun there => gone (known ▸ there)

end FieldCells

namespace Cells

variable [World W] {table : HandlerTable W}

/-- What watches can tell of cells. -/
def fieldCells (cells : Cells table) : FieldCells table where
  valid := cells.valid
  there := cells.there
  admits := cells.admits
  canonical place := place
  floatFree := cells.floatFree
  holds := cells.holds
  alike _ _ := rfl
  nowhere := cells.nowhere
  set_self := cells.set_self
  set_other valid known _ admitted :=
    (cells.set_other valid known admitted).imp id fun others other _ => others other

theorem knows (cells : Cells table) (place : Place) : cells.fieldCells.Knows place := rfl

theorem Edits.fieldCells {cells : Cells table} {place : Place} {change : W → W}
    (edits : cells.Edits place change) : cells.fieldCells.Edits place change :=
  fun world valid => ⟨(edits world valid).1, fun _ => (edits world valid).2 _⟩

end Cells

/-! ## Commands -/

namespace HandlerTable

variable [World W]

/-- What a command asks of a field, if it can be read to its end, and the ambient input it
brings. -/
def fieldCall? (table : HandlerTable W) (field : FieldHandler W) (context : CallContext)
    (command : Command) (world : W) : Option (Ambient × FieldCall) :=
  let resolver := World.resolver world
  let wire :=
    ((WireContext.ofScope context.scope).withHandler command.handler).withTick context.tick
  let decoder : Decoder DecodeError (Ambient × FieldCall) := do
    let ambient ← Ambient.decode table.registry resolver wire field.info.flags table.selectionType
    let call ← field.decodeCall (table.registry.decode resolver wire)
    return (ambient, call)
  match decoder command.payload with
  | .ok result [] => some result
  | _ => none

end HandlerTable

/-- The place that a field handler sets when it runs, and the value: none if the target is gone or
the first hook breaks down. -/
def FieldHandler.sets? (field : FieldHandler W) (id : HandlerId) (context : CallContext)
    (call : FieldCall) (state : HostState W) : Option (Place × Value) :=
  if isAbsent field.target call.target then none
  else
    match FieldHandler.runHook field.preHook context call.target state with
    | .ok _ _ => some (⟨id, context.scope, call.target, call.index⟩, call.value)
    | .error _ _ => none

namespace HandlerTable

variable [World W]

/-- What a command sets: nothing if it is passed over or cannot be read. -/
def sets? (table : HandlerTable W) (context : CallContext) (command : Command)
    (state : HostState W) : Option (Place × Value) :=
  match table.get? command.handler with
  | some (.field field) =>
    if field.info.debugOnly && !context.debugMode then none
    else
      match table.fieldCall? field context command state.world with
      | none => none
      | some (ambient, call) => field.sets? command.handler context call { state with ambient }
  | _ => none

/-- What commands set that run one after another. -/
def setsOf (table : HandlerTable W) (context : CallContext) :
    List Command → HostState W → List (Place × Value)
  | [], _ => []
  | command :: commands, state =>
    (table.sets? context command state).toList ++
      table.setsOf context commands (runCommand table context command state).2

/-- Whether a command sets a field. -/
def isFieldCommand (table : HandlerTable W) (command : Command) : Bool :=
  match table.get? command.handler with
  | some (.field _) => true
  | _ => false

end HandlerTable

/-! ## What commands leave -/

namespace Cells

variable [World W] {table : HandlerTable W} (cells : Cells table)

/-- A world shows what has been set since another, and what that one showed elsewhere. -/
structure Shows (before after : W) (set : List (Place × Value)) : Prop where
  valid : cells.valid after
  reads {place : Place} : cells.there place →
    table.read? after place = (set.reverse.lookup place).or (table.read? before place)

variable {cells}

theorem Shows.same {before after : W} (valid : cells.valid after)
    (reads : ∀ place, table.read? after place = table.read? before place) :
    cells.Shows before after [] :=
  ⟨valid, fun _ => reads _⟩

theorem Shows.refl {world : W} (valid : cells.valid world) : cells.Shows world world [] :=
  .same valid fun _ => rfl

theorem Shows.trans {before middle after : W} {first second : List (Place × Value)}
    (left : cells.Shows before middle first) (right : cells.Shows middle after second) :
    cells.Shows before after (first ++ second) := by
  refine ⟨right.valid, fun there => ?_⟩
  rw [right.reads there, left.reads there, List.reverse_append, List.lookup_append, Option.or_assoc]

/-- Setting a field that exists succeeds and shows. -/
theorem shows_set {field : FieldHandler W} {value : Value} {world : W} (valid : cells.valid world)
    (place : Place) (known : table.get? place.handler = some (.field field))
    (admitted : cells.admits place.handler value) :
    cells.Shows world (stateAfter (field.set place.scope place.target place.index value world))
      [(place, value)] := by
  obtain ⟨valid', others⟩ := cells.set_other valid known admitted
  refine ⟨valid', ?_⟩
  intro other there
  rw [List.reverse_singleton, List.lookup_cons]
  by_cases same : other = place
  · subst same
    obtain ⟨next, set, shown⟩ := cells.set_self valid known there admitted
    rw [set]
    simpa [stateAfter] using shown
  · rw [beq_eq_false_iff_ne.mpr same, others other same]
    rfl

/-- Hooks change no field. -/
theorem shows_hook {id : HandlerId} {field : FieldHandler W} {hook? : Option (Hook W)}
    {context : CallContext} {target : Value} {state : HostState W}
    (valid : cells.valid state.world) (known : table.get? id = some (.field field))
    (either : hook? = field.preHook ∨ hook? = field.postHook) :
    cells.Shows state.world
      (stateAfter (FieldHandler.runHook hook? context target state)).world [] := by
  cases hook? with
  | none => exact .refl valid
  | some hook =>
    have kept : cells.valid (stateAfter (hook context target state)).world ∧ ∀ place,
        table.read? (stateAfter (hook context target state)).world place =
            table.read? state.world place :=
      cells.hook valid known (either.imp Eq.symm Eq.symm)
    rw [FieldHandler.stateAfter_runHook]
    exact .same kept.1 kept.2

/-- A field handler changes what it sets and nothing else. -/
theorem shows_run {id : HandlerId} {field : FieldHandler W} {call : FieldCall}
    (context : CallContext) (state : HostState W) (valid : cells.valid state.world)
    (known : table.get? id = some (.field field)) (admitted : cells.admits id call.value) :
    cells.Shows state.world (stateAfter (field.run context call state)).world
      (field.sets? id context call state).toList := by
  rw [FieldHandler.sets?]
  cases absent : isAbsent field.target call.target with
  | true =>
    have passed : field.run context call state = .ok (.skipped .targetAbsent) state := by
      simp only [FieldHandler.run, absent, if_true]
      rfl
    rw [passed]
    exact .refl valid
  | false =>
    have runs : field.run context call = (do
        FieldHandler.runHook field.preHook context call.target
        Host.onWorld (field.set context.scope call.target call.index call.value)
        FieldHandler.runHook field.postHook context call.target
        return .executed) := by
      simp only [FieldHandler.run, absent, Bool.false_eq_true, if_false]
    have before : cells.Shows state.world
        (stateAfter (FieldHandler.runHook field.preHook context call.target state)).world [] :=
      shows_hook valid known (.inl rfl)
    rw [runs, stateAfter_bind, if_neg Bool.false_ne_true]
    cases first : FieldHandler.runHook field.preHook context call.target state with
    | error fault next =>
      rw [first] at before
      exact before
    | ok _ next =>
      rw [first] at before
      have set : cells.Shows next.world (stateAfter (Host.onWorld
          (field.set context.scope call.target call.index call.value) next)).world
          [(⟨id, context.scope, call.target, call.index⟩, call.value)] := by
        rw [stateAfter_onWorld]
        exact shows_set before.valid ⟨id, context.scope, call.target, call.index⟩ known admitted
      simp only [stateAfter_bind]
      cases second :
        Host.onWorld (field.set context.scope call.target call.index call.value) next with
      | error fault last =>
        rw [second] at set
        exact before.trans set
      | ok _ last =>
        rw [second] at set
        have after : cells.Shows last.world
            (stateAfter (FieldHandler.runHook field.postHook context call.target last)).world [] :=
          shows_hook set.valid known (.inr rfl)
        simp only
        cases third : FieldHandler.runHook field.postHook context call.target last with
        | error fault final =>
          rw [third] at after
          exact (before.trans set).trans after
        | ok _ final =>
          rw [third] at after
          exact (before.trans set).trans after

theorem admits_fieldCall {field : FieldHandler W} {context : CallContext} {command : Command}
    {world : W} {ambient : Ambient} {call : FieldCall}
    (known : table.get? command.handler = some (.field field))
    (read : table.fieldCall? field context command world = some (ambient, call)) :
    cells.admits command.handler call.value := by
  unfold HandlerTable.fieldCall? at read
  simp only at read
  split at read
  next result decoded =>
    cases read
    obtain ⟨_, _, _, decoded⟩ := Decoder.bind_eq_ok.mp decoded
    obtain ⟨_, _, decodedCall, decoded⟩ := Decoder.bind_eq_ok.mp decoded
    obtain ⟨same, _⟩ := Decoder.pure_eq_ok.mp decoded
    cases same
    obtain ⟨_, _, _, decodedCall⟩ := Decoder.bind_eq_ok.mp decodedCall
    split at decodedCall <;>
      obtain ⟨_, _, _, decodedCall⟩ := Decoder.bind_eq_ok.mp decodedCall <;>
      obtain ⟨_, _, decodedValue, decodedCall⟩ := Decoder.bind_eq_ok.mp decodedCall <;>
      obtain ⟨rfl, _⟩ := Decoder.pure_eq_ok.mp decodedCall <;>
      exact cells.declared known decodedValue
  next => cases read

/-- A command that is read runs under the ambient input it brings; one that is not leaves
everything. -/
theorem stateAfter_applyCall (table : HandlerTable W) (field : FieldHandler W)
    (context : CallContext) (command : Command) (state : HostState W) :
    stateAfter (table.applyCall (.field field) context
        (((WireContext.ofScope context.scope).withHandler command.handler).withTick context.tick)
        command.payload field.decodeCall field.run state) =
      match table.fieldCall? field context command state.world with
      | none => state
      | some (ambient, call) =>
          stateAfter (Host.withAmbient ambient (field.run context call) state) := by
  unfold HandlerTable.applyCall HandlerTable.fieldCall?
  simp only [Handler.info]
  split
  next decoded => simp only [decoded]; rfl
  next ambient call rest decoded =>
    simp only [decoded]
    cases rest with
    | nil =>
      simp only [List.isEmpty_nil, if_true]
      cases Host.withAmbient ambient (field.run context call) state with
      | ok _ _ => rfl
      | error _ _ => rfl
    | cons _ _ => rfl

theorem runCommand_state (table : HandlerTable W) (context : CallContext) (command : Command)
    (state : HostState W) :
    (runCommand table context command state).2 =
      stateAfter (table.apply context command.handler command.payload state) := by
  unfold runCommand
  split
  next applied => rw [applied]; rfl
  next failed => rw [failed]; rfl
  next brokeDown => rw [brokeDown]; rfl

/-- A command changes what it sets and nothing else. -/
theorem shows_command (context : CallContext) {command : Command} {state : HostState W}
    (valid : cells.valid state.world) (isField : table.isFieldCommand command = true) :
    cells.Shows state.world (runCommand table context command state).2.world
      (table.sets? context command state).toList := by
  rw [runCommand_state]
  unfold HandlerTable.isFieldCommand at isField
  split at isField
  next field known =>
    have apply : table.apply context command.handler command.payload =
        if field.info.debugOnly && !context.debugMode then pure (.skipped .debugDisabled)
        else table.applyCall (.field field) context
          (((WireContext.ofScope context.scope).withHandler command.handler).withTick context.tick)
          command.payload field.decodeCall field.run := by
      rw [HandlerTable.apply, known]
      rfl
    rw [apply, HandlerTable.sets?, known]
    simp only
    by_cases passed : (field.info.debugOnly && !context.debugMode) = true
    · rw [if_pos passed, if_pos passed]
      exact .refl valid
    · rw [if_neg passed, if_neg passed, stateAfter_applyCall]
      cases read : table.fieldCall? field context command state.world with
      | none => exact .refl valid
      | some result =>
        have admitted : cells.admits command.handler result.2.value := admits_fieldCall known read
        have ran := shows_run context { state with ambient := result.1 } valid known admitted
        simp only
        rw [stateAfter_withAmbient]
        exact ran
  next => cases isField

/-- Commands leave what the last of them set, and elsewhere what was there. -/
theorem shows_commands (context : CallContext) {commands : List Command} {state : HostState W}
    (valid : cells.valid state.world)
    (fields : ∀ command ∈ commands, table.isFieldCommand command = true) :
    cells.Shows state.world (runCommands table context commands state).2.world
      (table.setsOf context commands state) := by
  induction commands generalizing state with
  | nil => exact .refl valid
  | cons command commands ih =>
    obtain ⟨first, rest⟩ := List.forall_mem_cons.mp fields
    have head := shows_command context valid first
    exact head.trans (ih head.valid rest)

end Cells

end Lockstep
