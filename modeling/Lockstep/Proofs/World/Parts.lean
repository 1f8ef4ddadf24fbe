import Lockstep.Proofs.Handler.Partition
import Lockstep.World.Lab

/-! # Laboratories as worlds of parts

The part of a scope in a laboratory is its cells. Scripts touch nothing but the log, which nothing
reads, so a laboratory is a world of parts whatever its handlers are (`Lab.separates`).
-/

namespace Lockstep

namespace Lab

/-- The cells of each scope, and what a laboratory is set up with. -/
def parts : Partition Lab where
  Part _ := List LabCell
  Rest := Resolver × Nat
  part scope lab := lab.cells.filter (·.scope = scope)
  rest lab := (lab.resolver, lab.tickDraws)

theorem part_setCell_self (lab : Lab) (cell : LabCell) :
    parts.part cell.scope (lab.setCell cell) =
      cell :: (parts.part cell.scope lab).filter (!isAt cell.slot cell.scope cell.target cell.index ·) := by
  simp only [parts, setCell, clearCell, List.filter_filter, Bool.and_comm, List.filter_cons, decide_true,
    if_true]

theorem part_setCell_of_ne (lab : Lab) {cell : LabCell} {scope : ScopeId} (ne : scope ≠ cell.scope) :
    parts.part scope (lab.setCell cell) = parts.part scope lab := by
  have apart {other : LabCell} (own : other.scope = scope) :
      isAt cell.slot cell.scope cell.target cell.index other = false := by
    have elsewhere : (other.scope == cell.scope) = false := by simpa [own] using ne
    simp [isAt, elsewhere]
  simp only [parts, setCell, clearCell]
  rw [List.filter_cons_of_neg (by simpa using Ne.symm ne), List.filter_filter]
  refine List.filter_congr fun other _ => ?_
  by_cases own : other.scope = scope
  · simp [own, apart own]
  · simp [own]

variable {ε : Type} {scope : ScopeId}

/-! ## Callbacks -/

/-- The log belongs to no part. -/
theorem confines_note (event : LabEvent) :
    parts.Confines scope (LabAction.note event : Host ε Lab Unit) :=
  .change (fun same => ⟨same.part, same.rest⟩) fun _ => ⟨fun _ _ => rfl, rfl⟩

theorem confines_set (field : LabField) (slot : Nat) (target : Value) (index : Option Int32) (value : Value) :
    parts.Confines scope (Host.onWorld (field.set slot scope target index value)) := by
  unfold LabField.set
  split
  · exact .throw _
  · split
    · exact .throw _
    · refine .change (fun {first second} same => ⟨?_, same.rest⟩) fun lab => ⟨fun other ne => ?_, rfl⟩
      · have part : parts.part scope first = parts.part scope second := same.part
        exact (part_setCell_self _ _).trans (part ▸ (part_setCell_self _ _).symm)
      · exact part_setCell_of_ne _ ne

theorem confines_hook {field : LabField} {slot : Nat} {hook : Hook Lab}
    (either : (field.handler slot).preHook = some hook ∨ (field.handler slot).postHook = some hook)
    (context : CallContext) (target : Value) : parts.Confines scope (hook context target) := by
  simp only [LabField.handler, Option.ite_none_right_eq_some, Option.some.injEq] at either
  rcases either with ⟨-, rfl⟩ | ⟨-, rfl⟩
  · exact .bind (.draw _) fun _ => confines_note _
  · exact .bind (.draw _) fun _ => confines_note _

theorem confines_run (slot : Nat) (context : CallContext) (call : LabCall) (action : LabAction) :
    parts.Confines scope (action.run slot context call) := by
  cases action with
  | logCall => exact confines_note _
  | logAmbient => exact .get_bind (fun first second same => by rw [same]) fun _ => confines_note _
  | setAmbient ambient => exact .setAmbient ambient
  | drawU32 => exact .bind (.draw _) fun _ => confines_note _
  | drawU64 => exact .bind (.draw _) fun _ => confines_note _
  | drawInRange lo hi => exact .bind (.draw _) fun _ => confines_note _
  | refuse error => exact .throw _
  | breakDown breakdown => exact .throw _

theorem confines_runAll (slot : Nat) (context : CallContext) (call : LabCall) (script : List LabAction) :
    parts.Confines scope (LabAction.runAll slot context call script) := by
  induction script with
  | nil => exact .pure ()
  | cons action script ih => exact .bind (confines_run slot context call action) fun _ => ih

/-! ## Tables -/

/-- All handlers of a table are made from descriptions. -/
def IsDescribed (table : HandlerTable Lab) : Prop :=
  ∀ id handler, table.get? id = some handler →
    ∃ (described : LabHandler) (slot : Nat), handler = described.handler slot

/-- A laboratory is a world of parts. -/
theorem separates {table : HandlerTable Lab} (described : IsDescribed table) : parts.Separates table where
  resolver {scope first second} same := by
    have resolver : first.resolver = second.resolver := congrArg Prod.fst same.rest
    change first.resolver.AlikeFor _ _ second.resolver
    rw [resolver]
    exact ⟨rfl, fun _ _ => rfl, rfl, rfl, rfl⟩
  set {id field} known scope target index value := by
    obtain ⟨described, slot, made⟩ := described id _ known
    cases described with
    | field described =>
      cases made
      exact confines_set described slot target index value
    | operation described => cases made
    | closure described => cases made
  hook {id field hook} known either context target := by
    obtain ⟨described, slot, made⟩ := described id _ known
    cases described with
    | field described =>
      cases made
      exact confines_hook either context target
    | operation described => cases made
    | closure described => cases made
  operation {id operation} known context target arguments := by
    obtain ⟨described, slot, made⟩ := described id _ known
    cases described with
    | operation described =>
      cases made
      exact confines_runAll slot context _ described.script
    | field described => cases made
    | closure described => cases made
  closure {id closure} known context environment := by
    obtain ⟨described, slot, made⟩ := described id _ known
    cases described with
    | closure described =>
      cases made
      exact confines_runAll slot context _ described.script
    | field described => cases made
    | operation described => cases made
  tick {context first second} same := by
    have draws : first.world.tickDraws = second.world.tickDraws := congrArg Prod.snd same.world.rest
    refine ⟨same.world, ?_, same.ambient⟩
    change skipWords _ _ = skipWords _ _
    rw [draws, same.stream]
  tickOnly context state := .refl state.world

end Lab

end Lockstep
