import Lockstep.Proofs.Handler.Delivery
import Lockstep.World.Lab

/-! # Commands that no host can read

A capture looks at neither limit of a reader, so it also sends commands that no host can read: those
with a value that is too long or nests too deep. These are the only ones, and every host finds out alike.
-/

namespace Lockstep

namespace HandlerTable

variable {W : Type} {table : HandlerTable W}

/-- A command that was captured and sent cannot be read where it is applied exactly if one of its values
does not fit, whatever the world, unless its handler waits for the debug mode there. -/
theorem unreadable_iff_not_fits [World W] {declarations : List Declaration} {registry : Registry}
    {selectionType? : Option Ty} {handlers : List (Handler W)} {debugMode : Bool}
    {throttle later : Throttle} {now : Nat} {handle : Handle} {scope : ScopeId} {ambient : Ambient}
    {request : Request} {pending : PendingCommand}
    (declared : Registry.build declarations = .ok registry)
    (built : build registry selectionType? handlers = .ok table)
    (captured : table.capture debugMode throttle now handle scope ambient request =
      .ok (some pending, later)) :
    ∃ handler, table.slots[handle]? = some pending.handler ∧
      table.get? pending.handler = some handler ∧ handler.takes request = true ∧
      ∀ (tick : Tick) (debugMode : Bool) (state : HostState W),
        ∃ command, Command.ofDelivery scope tick pending.encode = .ok command ∧
          (Unreadable (table.perform debugMode command state) ↔
            (handler.info.debugOnly && !debugMode) = false ∧
              ¬∀ part ∈ table.carried handler ambient request, registry.Fits part.1 part.2) := by
  obtain ⟨handler, carries⟩ := carries_of_encodeRequest (capture_eq_some captured)
  refine ⟨handler, carries.slot, carries.known, carries.takes, fun tick debugMode state => ?_⟩
  obtain rfl := registry_of_build built
  have delivered := Command.ofDelivery_encode pending tick
  rw [carries.scope] at delivered
  refine ⟨_, delivered, ?_⟩
  cases asleep : handler.info.debugOnly && !debugMode with
  | true =>
    rw [carries.asleep asleep tick state]
    constructor
    · intro unreadable
      exact absurd unreadable (not_unreadable_ok _ _)
    · rintro ⟨impossible, _⟩
      cases impossible
  | false =>
    obtain ⟨fitting, beyond⟩ :=
      carries.performs (Registry.sound_of_build declared) asleep tick state
    constructor
    · intro unreadable
      refine ⟨rfl, fun fits => ?_⟩
      rw [fitting fits] at unreadable
      exact not_unreadable_settle _ _ unreadable
    · rintro ⟨-, outside⟩
      obtain ⟨source, refused⟩ := beyond outside
      exact ⟨_, _, refused, rfl⟩

end HandlerTable

/-! ## Lists of lists -/

/-- Lists of lists of bytes, so deep. -/
def listType : Nat → Ty
  | 0 => .scalar .u8
  | depth + 1 => .list (listType depth)

/-- One list within another, the innermost one empty. -/
def listValue : Nat → Value
  | 0 => .list []
  | depth + 1 => .list [listValue depth]

/-- A field of lists of lists. -/
def deep (depth : Nat) : LabField where
  name := "deep"
  target := .unit
  value := listType depth

def deepRegistry : Registry := (Registry.build []).toOption.get (by decide +kernel)

def deepTable (depth : Nat) : HandlerTable Lab where
  registry := deepRegistry
  selectionType := .unit
  handlers := [.field ((deep depth).handler 0)]
  slots := [0]

/-- The field is set to lists that nest so deep. -/
def deepRequest (depth : Nat) : Request := .field .unit none (listValue depth)

def deepCommand (depth : Nat) : PendingCommand where
  handler := 0
  scope := .global
  payload := (List.replicate depth [1, 0]).flatten ++ [0, 0]

/-- Sixty-four levels of lists within a list can be read. -/
theorem deep_readable :
    ∃ command, Command.ofDelivery .global 0 (deepCommand 64).encode = .ok command ∧
      ¬HandlerTable.Unreadable ((deepTable 65).perform false command ⟨{}, default, {}⟩) := by
  have declared : Registry.build [] = .ok deepRegistry := by rfl
  have built : HandlerTable.build deepRegistry none (Lab.handlers [.field (deep 65)]) =
      .ok (deepTable 65) := by rfl
  have captured : (deepTable 65).capture false {} 0 0 .global {} (deepRequest 64) =
      .ok (some (deepCommand 64), {}) :=
    bind_eq_ok.mpr ⟨deepCommand 64, by decide +kernel, rfl⟩
  obtain ⟨handler, -, known, -, applied⟩ :=
    HandlerTable.unreadable_iff_not_fits declared built captured
  have only : (deepTable 65).get? (deepCommand 64).handler = some (.field ((deep 65).handler 0)) := by
    rfl
  cases known.symm.trans only
  obtain ⟨command, delivered, unreadable⟩ := applied 0 false ⟨{}, default, {}⟩
  refine ⟨command, delivered, fun unread => (unreadable.mp unread).2 ?_⟩
  have carried : (deepTable 65).carried (.field ((deep 65).handler 0)) {} (deepRequest 64) =
      [(.unit, .unit), (listType 65, listValue 64)] := by rfl
  rw [carried]
  decide +kernel

/-- With a level more the command is sent all the same, and then it cannot be read. -/
theorem deep_captured_and_unreadable :
    HandlerTable.build deepRegistry none (Lab.handlers [.field (deep 66)]) = .ok (deepTable 66) ∧
      ∃ command, (deepTable 66).capture false {} 0 0 .global {} (deepRequest 65) =
        .ok (some (deepCommand 65), {}) ∧
      Command.ofDelivery .global 0 (deepCommand 65).encode = .ok command ∧
      HandlerTable.Unreadable ((deepTable 66).perform false command ⟨{}, default, {}⟩) := by
  refine ⟨by rfl, ⟨0, 0, .global, (deepCommand 65).payload⟩, ?_, ?_, ?_⟩
  · exact bind_eq_ok.mpr ⟨deepCommand 65, by decide +kernel, rfl⟩
  · decide +kernel
  · decide +kernel

end Lockstep
