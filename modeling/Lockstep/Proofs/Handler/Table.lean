import Lockstep.Handler.Table
import Lockstep.Proofs.Success

/-! # Handlers of a table

What a table was built over, and which handlers stand behind the handles on it.
-/

namespace Lockstep

namespace HandlerTable

variable {W : Type} {table : HandlerTable W} {handle : Handle} {id : HandlerId}

/-- A table is built over the registry given. -/
theorem registry_of_build {registry : Registry} {selectionType? : Option Ty}
    {handlers : List (Handler W)} (built : build registry selectionType? handlers = .ok table) :
    table.registry = registry := by
  unfold build at built
  split at built
  next => cases built
  next =>
    obtain ⟨_, _, built⟩ := bind_eq_ok.mp built
    simp only at built
    split at built
    next => cases built
    next =>
      cases built
      rfl

theorem slot_eq_ok {expected : String} (found : table.slot handle expected = .ok id) :
    table.slots[handle]? = some id := by
  unfold slot at found
  split at found
  next behind =>
    cases found
    exact behind
  next => cases found

theorem field_eq_ok {handler : FieldHandler W} (found : table.field handle = .ok (id, handler)) :
    table.get? id = some (.field handler) := by
  obtain ⟨slot, _, found⟩ := bind_eq_ok.mp found
  split at found
  next known =>
    cases found
    exact known
  next => cases found

/-- The number of a field handler is the one behind the handle. -/
theorem slots_of_field {handler : FieldHandler W} (found : table.field handle = .ok (id, handler)) :
    table.slots[handle]? = some id := by
  obtain ⟨slot, behind, found⟩ := bind_eq_ok.mp found
  split at found
  next =>
    cases found
    exact slot_eq_ok behind
  next => cases found

theorem operation_eq_ok {handler : OperationHandler W}
    (found : table.operation handle = .ok (id, handler)) :
    table.slots[handle]? = some id ∧ table.get? id = some (.operation handler) := by
  obtain ⟨slot, behind, found⟩ := bind_eq_ok.mp found
  split at found
  next known =>
    cases found
    exact ⟨slot_eq_ok behind, known⟩
  next => cases found

theorem closure_eq_ok {handler : ClosureHandler W}
    (found : table.closure handle = .ok (id, handler)) :
    table.slots[handle]? = some id ∧ table.get? id = some (.closure handler) := by
  obtain ⟨slot, behind, found⟩ := bind_eq_ok.mp found
  split at found
  next known =>
    cases found
    exact ⟨slot_eq_ok behind, known⟩
  next => cases found

end HandlerTable

end Lockstep
