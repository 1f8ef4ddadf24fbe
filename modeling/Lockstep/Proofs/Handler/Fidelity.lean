import Lockstep.Proofs.Handler.Delivery
import Lockstep.World.Lab

/-! # What was captured is what the host gets

A command carries its request from the host where it was captured to every host that applies it. Where
each value that travels fits and stands for itself, nothing is lost on the way: the handler responds to
the very request, under the flagged parts of the very ambient input.
-/

namespace Lockstep

/-! ## Values that stand for themselves -/

/-- What is selected and stands is read as it is. -/
theorem Ambient.restrict_resolve {registry : Registry} {resolver : Resolver} {scope : ScopeId}
    {flags : ContextFlags} {selectionType : Ty} {ambient : Ambient}
    (stand : ∀ part ∈ ambient.parts flags selectionType, registry.Stands resolver scope part.2) :
    (ambient.resolve registry resolver scope).restrict flags = ambient.restrict flags := by
  unfold parts at stand
  unfold restrict resolve
  cases flagged : flags.selection with
  | false => rfl
  | true =>
    rw [flagged] at stand
    have stands : registry.Stands resolver scope (.list ambient.selection) :=
      stand _ (List.mem_singleton_self _)
    simp only [if_true]
    rw [Registry.resolveAll_eq_self stands]

/-- What a request carries and is read as it is arrives as it is. -/
theorem Handler.map_narrow {W : Type} {handler : Handler W} {request : Request} {f : Value → Value}
    (takes : handler.takes request = true) (same : ∀ part ∈ handler.parts request, f part.2 = part.2) :
    (handler.narrow request).map f = handler.narrow request := by
  cases handler with
  | field field =>
    cases request with
    | field target index value =>
      have target := same _ List.mem_cons_self
      have value := same _ (List.mem_cons_of_mem _ List.mem_cons_self)
      simp only at target value
      rw [narrow, Request.map, target, value]
    | _ => cases takes
  | operation operation =>
    cases request with
    | operation target arguments =>
      obtain ⟨head, tail⟩ := List.forall_mem_cons.mp same
      have second : (operation.arguments.zip arguments).map (·.2) = arguments :=
        List.map_snd_zip (Nat.le_of_eq (beq_iff_eq.mp takes))
      have each : arguments.map f = arguments := calc
        _ = (operation.arguments.zip arguments).map fun part => f part.2 := by
          rw [← second, List.map_map, second]
          rfl
        _ = arguments := (List.map_congr_left tail).trans second
      simp only at head
      simp only [narrow, Request.map, head, each]
    | _ => cases takes
  | closure closure =>
    cases request with
    | closure environment =>
      rw [narrow, Request.map]
      refine congrArg Request.closure (SortedMap.ext fun path => ?_)
      rw [SortedMap.get?_mapValues, SortedMap.get?_filter]
      cases found : environment.get? path with
      | none => rfl
      | some value =>
        by_cases listed : path ∈ closure.shape.fields.map (·.1)
        · obtain ⟨entry, member, rfl⟩ := List.mem_map.mp listed
          have kept := same _ (List.mem_map_of_mem member)
          simp only [found, Option.getD_some] at kept
          simp [Option.filter_some, listed, kept]
        · simp [Option.filter_some, listed]
    | _ => cases takes

/-! ## From host to host -/

namespace HandlerTable

variable {W : Type} {table : HandlerTable W} {handle : Handle} {scope : ScopeId} {ambient : Ambient}
  {request : Request} {pending : PendingCommand}

/-- A command that was captured, delivered and applied does to a host what its handler was asked for.
Unless the handler waits for the debug mode, it responds to what was captured, so either one of its rules
passes the request over or the host is called for it once; and the payload can always be read. -/
theorem delivered_as_captured [World W] {declarations : List Declaration} {registry : Registry}
    {selectionType? : Option Ty} {handlers : List (Handler W)}
    (declared : Registry.build declarations = .ok registry)
    (built : build registry selectionType? handlers = .ok table)
    (encoded : table.encodeRequest handle scope ambient request = .ok pending) :
    ∃ handler, table.slots[handle]? = some pending.handler ∧
      table.get? pending.handler = some handler ∧ handler.takes request = true ∧
      ∀ (tick : Tick) (debugMode : Bool) (state : HostState W),
        (∀ part ∈ table.carried handler ambient request, registry.Fits part.1 part.2 ∧
          registry.Stands (World.resolver state.world) scope part.2) →
        ∃ command, Command.ofDelivery scope tick pending.encode = .ok command ∧
          ¬Unreadable (table.perform debugMode command state) ∧
          table.perform debugMode command state =
            if handler.info.debugOnly && !debugMode then .ok (.skipped .debugDisabled) state
            else settle handler.name (Host.withAmbient (ambient.restrict handler.info.flags)
              (handler.respond ⟨scope, tick, debugMode⟩ (handler.narrow request)) state) := by
  obtain ⟨handler, carries⟩ := carries_of_encodeRequest encoded
  refine ⟨handler, carries.slot, carries.known, carries.takes, fun tick debugMode state whole => ?_⟩
  obtain rfl := registry_of_build built
  have delivered := Command.ofDelivery_encode pending tick
  rw [carries.scope] at delivered
  refine ⟨_, delivered, ?_⟩
  cases asleep : handler.info.debugOnly && !debugMode with
  | true =>
    rw [carries.asleep asleep tick state]
    exact ⟨not_unreadable_ok _ _, rfl⟩
  | false =>
    have fits := fun part member => (whole part member).1
    have stands := fun part member => (whole part member).2
    obtain ⟨selection, parts⟩ := List.forall_mem_append.mp stands
    have kept := Handler.map_narrow carries.takes fun part member =>
      Registry.resolve_eq_self (parts part member)
    rw [(carries.performs (Registry.sound_of_build declared) asleep tick state).1 fits,
      Ambient.restrict_resolve selection, kept]
    exact ⟨not_unreadable_settle _ _, rfl⟩

end HandlerTable

/-! ## Workers are mustered -/

/-- Musters a worker, perhaps with a rank, around what the player points at. -/
def muster : LabOperation where
  name := "muster"
  target := .named "Worker"
  arguments := [.nullable (.scalar .u8)]
  info := { flags := { mouse := true, selection := true } }
  script := [.logAmbient, .logCall]

def workerTypes : List Declaration := [.reference "Worker" [.spawned]]

def workerRegistry : Registry := (Registry.build workerTypes).toOption.get (by decide +kernel)

def musterTable : HandlerTable Lab :=
  (HandlerTable.build workerRegistry (some (.named "Worker"))
    (Lab.handlers [.operation muster])).toOption.get (by decide +kernel)

/-- The worker 9 is mustered with a rank. -/
def musterRequest : Request := .operation (.spawned "Worker" 9) [.scalar (.u8 3)]

/-- The player points at a cell, has selected the worker 7 and nothing, and holds the queue key. -/
def musterAmbient : Ambient := ⟨some ⟨3, -4⟩, [.spawned "Worker" 7, .null], true⟩

def musterCommand : PendingCommand where
  handler := 0
  scope := .map 2
  payload := [1, 3, 0, 0, 0, 252, 255, 255, 255, 2, 0, 7, 0, 0, 0, 255, 255, 255, 255, 9, 0, 0, 0, 0, 1, 3]

/-- The worker and the rank come as they were given, with the cell and the worker that was selected. -/
theorem muster_arrives :
    ∃ command, Command.ofDelivery (.map 2) 5 musterCommand.encode = .ok command ∧
      ∃ after, musterTable.perform false command ⟨{}, default, {}⟩ = .ok .executed after ∧
        after.world.log =
          [.call 0 ⟨.map 2, 5, false⟩ (.operation (.spawned "Worker" 9) [.scalar (.u8 3)]),
            .ambient 0 ⟨some ⟨3, -4⟩, [.spawned "Worker" 7], false⟩] := by
  have declared : Registry.build workerTypes = .ok workerRegistry := by rfl
  have built : HandlerTable.build workerRegistry (some (.named "Worker"))
      (Lab.handlers [.operation muster]) = .ok musterTable := by rfl
  have encoded : musterTable.encodeRequest 0 (.map 2) musterAmbient musterRequest =
      .ok musterCommand := by decide +kernel
  obtain ⟨handler, -, known, -, arrives⟩ :=
    HandlerTable.delivered_as_captured declared built encoded
  have only : musterTable.get? musterCommand.handler = some (.operation (muster.handler 0)) := by rfl
  cases known.symm.trans only
  have whole : ∀ part ∈ musterTable.carried (.operation (muster.handler 0)) musterAmbient
      musterRequest, workerRegistry.Fits part.1 part.2 ∧
        workerRegistry.Stands .everything (.map 2) part.2 := by
    have carried : musterTable.carried (.operation (muster.handler 0)) musterAmbient musterRequest =
        [(.list (.named "Worker"), .list [.spawned "Worker" 7, .null]),
          (.named "Worker", .spawned "Worker" 9), (.nullable (.scalar .u8), .scalar (.u8 3))] := by rfl
    rw [carried, List.forall_mem_cons, List.forall_mem_cons, List.forall_mem_singleton]
    exact ⟨⟨by decide +kernel, rfl, trivial, trivial⟩, ⟨by decide +kernel, rfl⟩,
      ⟨by decide +kernel, trivial⟩⟩
  obtain ⟨command, delivered, -, performed⟩ := arrives 5 false ⟨{}, default, {}⟩ whole
  exact ⟨command, delivered, _, performed.trans rfl, rfl⟩

end Lockstep
