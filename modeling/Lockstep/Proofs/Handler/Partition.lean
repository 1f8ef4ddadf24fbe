import Lockstep.Handler.Apply
import Lockstep.Peer.Tick
import Lockstep.Proofs.Schema.Lookup
import Lockstep.Proofs.Watch.Cells

/-! # Worlds of parts

A world may be seen as a part for each scope, and a rest that belongs to none of them. If the callbacks
of a host that run for a scope read and write the part of this scope alone, and look-ups see no more
than that part and the rest, then so do the commands of the scope, whatever they are
(`Separates.runCommands`).
-/

namespace Lockstep

/-- A view of worlds as a part for each scope, and a rest. -/
structure Partition (W : Type) where
  Part : ScopeId → Type
  Rest : Type
  part (scope : ScopeId) (world : W) : Part scope
  rest (world : W) : Rest

namespace Partition

variable {W : Type}

/-- Two worlds are the same to a scope. -/
structure Alike (partition : Partition W) (scope : ScopeId) (first second : W) : Prop where
  part : partition.part scope first = partition.part scope second
  rest : partition.rest first = partition.rest second

/-- A world has changed in the part of a scope alone. -/
structure OnlyAt (partition : Partition W) (scope : ScopeId) (before after : W) : Prop where
  part : ∀ other, other ≠ scope → partition.part other after = partition.part other before
  rest : partition.rest after = partition.rest before

/-- Two states of a host are the same to a scope. -/
structure SameFor (partition : Partition W) (scope : ScopeId) (first second : HostState W) : Prop where
  world : partition.Alike scope first.world second.world
  stream : first.stream = second.stream
  ambient : first.ambient = second.ambient

/-- Two runs of a callback come to the same, as far as a scope can tell. -/
inductive Agree (partition : Partition W) (scope : ScopeId) {ε α : Type} :
    EStateM.Result ε (HostState W) α → EStateM.Result ε (HostState W) α → Prop
  | ok (value : α) {first second : HostState W} : partition.SameFor scope first second →
      Agree partition scope (.ok value first) (.ok value second)
  | error (error : ε) {first second : HostState W} : partition.SameFor scope first second →
      Agree partition scope (.error error first) (.error error second)

/-- A callback reads and writes the part of a scope alone. -/
structure Confines (partition : Partition W) (scope : ScopeId) {ε α : Type} (body : Host ε W α) :
    Prop where
  reads {first second : HostState W} : partition.SameFor scope first second →
    partition.Agree scope (body first) (body second)
  writes (state : HostState W) : partition.OnlyAt scope state.world (stateAfter (body state)).world

variable {partition : Partition W} {scope : ScopeId}

theorem OnlyAt.refl (world : W) : partition.OnlyAt scope world world := ⟨fun _ _ => rfl, rfl⟩

theorem OnlyAt.trans {first second third : W} (before : partition.OnlyAt scope first second)
    (after : partition.OnlyAt scope second third) : partition.OnlyAt scope first third :=
  ⟨fun other ne => (after.part other ne).trans (before.part other ne), after.rest.trans before.rest⟩

/-- What happens to one scope leaves the world the same to the others. -/
theorem OnlyAt.alike {before after : W} (changed : partition.OnlyAt scope before after) {other : ScopeId}
    (ne : other ≠ scope) : partition.Alike other after before :=
  ⟨changed.part other ne, changed.rest⟩

/-! ## What callbacks are built from -/

namespace Confines

variable {ε α β : Type}

theorem pure (value : α) : partition.Confines scope (Pure.pure value : Host ε W α) where
  reads same := .ok value same
  writes state := .refl state.world

theorem throw (error : ε) : partition.Confines scope (throwThe ε error : Host ε W α) where
  reads same := .error error same
  writes state := .refl state.world

theorem bind {first : Host ε W α} {next : α → Host ε W β} (confined : partition.Confines scope first)
    (later : ∀ value, partition.Confines scope (next value)) :
    partition.Confines scope (first >>= next) where
  reads {state other} same := by
    have agree := confined.reads same
    change partition.Agree scope (EStateM.bind first next state) (EStateM.bind first next other)
    unfold EStateM.bind
    generalize first state = result at agree ⊢
    generalize first other = result' at agree ⊢
    cases agree with
    | ok value same => exact (later value).reads same
    | error error same => exact .error error same
  writes state := by
    have before := confined.writes state
    rw [stateAfter_bind]
    cases result : first state with
    | ok value after =>
      rw [result] at before
      exact before.trans ((later value).writes after)
    | error error after =>
      rw [result] at before
      exact before

/-- What comes next may look at the ambient input. -/
theorem get_bind {next : HostState W → Host ε W α}
    (ambient : ∀ first second, first.ambient = second.ambient → next first = next second)
    (later : ∀ state, partition.Confines scope (next state)) : partition.Confines scope (get >>= next) where
  reads {state other} same := by
    change partition.Agree scope (next state state) (next other other)
    rw [ambient state other same.ambient]
    exact (later other).reads same
  writes state := (later state).writes state

theorem draw (next : RandomStream → α × RandomStream) :
    partition.Confines scope (Host.draw next : Host ε W α) where
  reads {state other} same := by
    simp only [Host.draw, same.stream]
    exact .ok _ ⟨same.world, rfl, same.ambient⟩
  writes state := .refl state.world

theorem setAmbient (ambient : Ambient) :
    partition.Confines scope (modify fun state => { state with ambient } : Host ε W Unit) where
  reads same := .ok () ⟨same.world, same.stream, rfl⟩
  writes state := .refl state.world

/-- A change of the world that reads and writes the part of a scope alone. -/
theorem change {change : W → W}
    (reads : ∀ {first second}, partition.Alike scope first second →
      partition.Alike scope (change first) (change second))
    (writes : ∀ world, partition.OnlyAt scope world (change world)) :
    partition.Confines scope (Host.onWorld (modify change) : Host ε W Unit) where
  reads same := .ok () ⟨reads same.world, same.stream, same.ambient⟩
  writes state := writes state.world

theorem withAmbient {body : Host ε W α} (confined : partition.Confines scope body) (ambient : Ambient) :
    partition.Confines scope (Host.withAmbient ambient body) where
  reads {state other} same := by
    have start : partition.SameFor scope { state with ambient } { other with ambient } :=
      ⟨same.world, same.stream, rfl⟩
    have agree := confined.reads start
    unfold Host.withAmbient
    generalize body { state with ambient } = result at agree ⊢
    generalize body { other with ambient } = result' at agree ⊢
    cases agree with
    | ok value after => exact .ok value ⟨after.world, after.stream, same.ambient⟩
    | error error after => exact .error error ⟨after.world, after.stream, same.ambient⟩
  writes state := by
    rw [stateAfter_withAmbient]
    exact confined.writes { state with ambient }

theorem unrefusable {body : Host Breakdown W α} (confined : partition.Confines scope body) :
    partition.Confines scope (Host.unrefusable body) where
  reads {state other} same := by
    have agree := confined.reads same
    unfold Host.unrefusable
    generalize body state = result at agree ⊢
    generalize body other = result' at agree ⊢
    cases agree with
    | ok value same => exact .ok value same
    | error error same => exact .error _ same
  writes state := by
    have changed := confined.writes state
    unfold Host.unrefusable
    cases result : body state <;> rw [result] at changed <;> exact changed

theorem runHook {hook? : Option (Hook W)} {context : CallContext} {target : Value}
    (confined : ∀ hook, hook? = some hook → partition.Confines context.scope (hook context target)) :
    partition.Confines context.scope (FieldHandler.runHook hook? context target) := by
  cases hook? with
  | none => exact .pure ()
  | some hook => exact .unrefusable (confined hook rfl)

end Confines

/-! ## Hosts of parts -/

/-- The scopes of a host have nothing to do with each other: look-ups for a scope see its part and the
rest, callbacks that run for it read and write its part alone, and so does its own tick. -/
structure Separates [World W] (partition : Partition W) (table : HandlerTable W) : Prop where
  resolver {scope : ScopeId} {first second : W} : partition.Alike scope first second →
    (World.resolver first).AlikeFor table.registry scope (World.resolver second)
  set {id : HandlerId} {handler : FieldHandler W} : table.get? id = some (.field handler) →
    ∀ scope target index value,
      partition.Confines scope (Host.onWorld (handler.set scope target index value))
  hook {id : HandlerId} {handler : FieldHandler W} {hook : Hook W} :
    table.get? id = some (.field handler) →
    (handler.preHook = some hook ∨ handler.postHook = some hook) →
    ∀ context target, partition.Confines context.scope (hook context target)
  operation {id : HandlerId} {handler : OperationHandler W} :
    table.get? id = some (.operation handler) →
    ∀ context target arguments, partition.Confines context.scope (handler.invoke context target arguments)
  closure {id : HandlerId} {handler : ClosureHandler W} : table.get? id = some (.closure handler) →
    ∀ context environment, partition.Confines context.scope (handler.invoke context environment)
  tick {context : CallContext} {first second : HostState W} :
    partition.SameFor context.scope first second →
    partition.SameFor context.scope (World.tickScope context first) (World.tickScope context second)
  tickOnly (context : CallContext) (state : HostState W) :
    partition.OnlyAt context.scope state.world (World.tickScope context state).world

namespace Separates

variable [World W] {table : HandlerTable W}

/-! ### Handlers -/

theorem runField (separates : partition.Separates table) {id : HandlerId} {handler : FieldHandler W}
    (known : table.get? id = some (.field handler)) (context : CallContext) (call : FieldCall) :
    partition.Confines context.scope (handler.run context call) := by
  unfold FieldHandler.run
  split
  next => exact .pure _
  next =>
    refine .bind (.runHook fun hook own => separates.hook known (.inl own) _ _) fun _ => ?_
    refine .bind (separates.set known _ _ _ _) fun _ => ?_
    exact .bind (.runHook fun hook own => separates.hook known (.inr own) _ _) fun _ => .pure _

theorem runOperation (separates : partition.Separates table) {id : HandlerId}
    {handler : OperationHandler W} (known : table.get? id = some (.operation handler))
    (context : CallContext) (call : OperationCall) :
    partition.Confines context.scope (handler.run context call) := by
  have invoked := separates.operation known context call.target call.arguments
  unfold OperationHandler.run
  split
  next => exact .pure _
  next =>
    split
    next => exact .pure _
    next =>
      refine .get_bind (fun first second same => by rw [same]) fun state => ?_
      split
      · exact .pure _
      · exact .bind invoked fun _ => .pure _

theorem runClosure (separates : partition.Separates table) {id : HandlerId} {handler : ClosureHandler W}
    (known : table.get? id = some (.closure handler)) (context : CallContext) (environment : Environment) :
    partition.Confines context.scope (handler.run context environment) :=
  .bind (separates.closure known context environment) fun _ => .pure _

/-! ### Commands -/

/-- A payload is read the same and run the same by worlds that are the same to its scope. -/
theorem applyCall {γ : Type} (separates : partition.Separates table) (handler : Handler W)
    {context : CallContext} {wire : WireContext} (own : wire.lookupScope = context.scope) (payload : Bytes)
    (decodeCall : ValueReader → Decoder DecodeError γ)
    {run : CallContext → γ → Host HostFault W Applied}
    (confined : ∀ call, partition.Confines context.scope (run context call)) :
    partition.Confines context.scope (table.applyCall handler context wire payload decodeCall run) where
  reads {state other} same := by
    -- What is read is the same in both worlds, so both go the same way from here on.
    have alike := separates.resolver same.world
    rw [← own] at alike
    unfold HandlerTable.applyCall
    simp only [Ambient.decode_congr alike, Registry.decode_congr alike]
    split
    next => exact .error _ same
    next ambient call rest _ =>
      split
      next =>
        have agree := ((confined call).withAmbient ambient).reads same
        generalize Host.withAmbient ambient (run context call) state = result at agree ⊢
        generalize Host.withAmbient ambient (run context call) other = result' at agree ⊢
        cases agree with
        | ok value same => exact .ok value same
        | error error same => exact .error _ same
      next => exact .error _ same
  writes state := by
    unfold HandlerTable.applyCall
    dsimp only
    split
    next => exact .refl state.world
    next ambient call rest _ =>
      split
      next =>
        have changed := ((confined call).withAmbient ambient).writes state
        cases result : Host.withAmbient ambient (run context call) state <;> rw [result] at changed <;>
          exact changed
      next => exact .refl state.world

theorem apply (separates : partition.Separates table) (context : CallContext) (id : HandlerId)
    (payload : Bytes) : partition.Confines context.scope (table.apply context id payload) := by
  unfold HandlerTable.apply
  split
  next => exact .throw _
  next handler known =>
    split
    next => exact .pure _
    next =>
      cases handler with
      | field field =>
        exact separates.applyCall _ rfl payload _ (separates.runField known context)
      | operation operation =>
        exact separates.applyCall _ rfl payload _ (separates.runOperation known context)
      | closure closure =>
        exact separates.applyCall _ rfl payload _ (separates.runClosure known context)

/-- A command of a scope comes to the same in worlds that are the same to the scope. -/
theorem runCommand (separates : partition.Separates table) (context : CallContext) (command : Command)
    {state other : HostState W} (same : partition.SameFor context.scope state other) :
    (Lockstep.runCommand table context command state).1 =
        (Lockstep.runCommand table context command other).1 ∧
      partition.SameFor context.scope (Lockstep.runCommand table context command state).2
        (Lockstep.runCommand table context command other).2 := by
  have agree := (separates.apply context command.handler command.payload).reads same
  unfold Lockstep.runCommand
  generalize table.apply context command.handler command.payload state = result at agree ⊢
  generalize table.apply context command.handler command.payload other = result' at agree ⊢
  cases agree with
  | ok value same => exact ⟨rfl, same⟩
  | error error same => cases error <;> exact ⟨rfl, same⟩

theorem runCommand_onlyAt (separates : partition.Separates table) (context : CallContext)
    (command : Command) (state : HostState W) :
    partition.OnlyAt context.scope state.world
      (Lockstep.runCommand table context command state).2.world := by
  have changed := (separates.apply context command.handler command.payload).writes state
  unfold Lockstep.runCommand
  split
  all_goals
    next result =>
      rw [result] at changed
      exact changed

/-- So do several commands of a scope, one after another. -/
theorem runCommands (separates : partition.Separates table) (context : CallContext)
    (commands : List Command) {state other : HostState W}
    (same : partition.SameFor context.scope state other) :
    (Lockstep.runCommands table context commands state).1 =
        (Lockstep.runCommands table context commands other).1 ∧
      partition.SameFor context.scope (Lockstep.runCommands table context commands state).2
        (Lockstep.runCommands table context commands other).2 := by
  induction commands generalizing state other with
  | nil => exact ⟨rfl, same⟩
  | cons command commands ih =>
    obtain ⟨outcome, next⟩ := separates.runCommand context command same
    obtain ⟨outcomes, final⟩ := ih next
    simp only [Lockstep.runCommands, outcome, outcomes, next.stream]
    exact ⟨True.intro, final⟩

theorem runCommands_onlyAt (separates : partition.Separates table) (context : CallContext)
    (commands : List Command) (state : HostState W) :
    partition.OnlyAt context.scope state.world
      (Lockstep.runCommands table context commands state).2.world := by
  induction commands generalizing state with
  | nil => exact .refl state.world
  | cons command commands ih => exact (separates.runCommand_onlyAt context command state).trans (ih _)

end Separates

end Partition

end Lockstep
