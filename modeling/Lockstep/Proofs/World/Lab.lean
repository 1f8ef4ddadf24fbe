import Lockstep.Proofs.Watch.Setting
import Lockstep.Proofs.Watch.Vigil
import Lockstep.World.Lab

/-! # Laboratories as hosts of cells

A laboratory whose fields can all be set, and hold something from the start, is a host whose fields
are cells of their own, so what the world shows outside of watches follows from what commands and
flushes did.
-/

namespace Lockstep

namespace Lab

theorem isAt_iff {slot : Nat} {scope : ScopeId} {target : Value} {index : Option Int32}
    {cell : LabCell} :
    isAt slot scope target index cell = true ↔
      cell.slot = slot ∧ cell.scope = scope ∧ cell.target = target ∧ cell.index = index := by
  simp [isAt, Value.identical_iff, and_assoc]

theorem cell?_setCell_self (lab : Lab) (cell : LabCell) :
    (lab.setCell cell).cell? cell.slot cell.scope cell.target cell.index = some cell.value := by
  have here : isAt cell.slot cell.scope cell.target cell.index cell = true :=
    isAt_iff.mpr ⟨rfl, rfl, rfl, rfl⟩
  rw [cell?, setCell, List.find?_cons_of_pos here]
  rfl

theorem cell?_setCell_of_ne (lab : Lab) {cell : LabCell} {slot : Nat} {scope : ScopeId}
    {target : Value} {index : Option Int32} (apart : isAt slot scope target index cell = false) :
    (lab.setCell cell).cell? slot scope target index = lab.cell? slot scope target index := by
  have elsewhere {other : LabCell} (there : isAt slot scope target index other = true) :
      isAt cell.slot cell.scope cell.target cell.index other = false := by
    obtain ⟨rfl, rfl, rfl, rfl⟩ := isAt_iff.mp there
    refine Bool.eq_false_iff.mpr fun here => ?_
    obtain ⟨sameSlot, sameScope, sameTarget, sameIndex⟩ := isAt_iff.mp here
    rw [isAt_iff.mpr ⟨sameSlot.symm, sameScope.symm, sameTarget.symm, sameIndex.symm⟩] at apart
    cases apart
  have same :
      (fun other => decide ((!isAt cell.slot cell.scope cell.target cell.index other) = true ∧
      isAt slot scope target index other = true)) = isAt slot scope target index := by
    funext other
    cases there : isAt slot scope target index other with
    | false => simp
    | true => simp [elsewhere there]
  rw [cell?, setCell, List.find?_cons_of_neg (Bool.eq_false_iff.mp apart), clearCell,
    List.find?_filter, same]
  rfl

/-- Whether no cell holds a floating-point number. -/
def IsExact (lab : Lab) : Prop := ∀ cell ∈ lab.cells, cell.value.isFloatFree = true

theorem IsExact.cell? {lab : Lab} (exact : lab.IsExact) {slot : Nat} {scope : ScopeId}
    {target value : Value} {index : Option Int32}
    (found : lab.cell? slot scope target index = some value) : value.isFloatFree = true := by
  obtain ⟨cell, member, rfl⟩ := Option.map_eq_some_iff.mp found
  exact exact cell (List.mem_of_find?_eq_some member)

theorem IsExact.setCell {lab : Lab} (exact : lab.IsExact) {cell : LabCell}
    (exactly : cell.value.isFloatFree = true) : (lab.setCell cell).IsExact := by
  intro other member
  rcases List.mem_cons.mp member with rfl | member
  · exact exactly
  · exact exact other (List.mem_filter.mp member).1

end Lab

/-- A field that can be set to anything of its type, which is exact, and holds something from the
start. -/
structure LabField.IsPlain (field : LabField) : Prop where
  writable : field.readOnly = false
  accepting : field.rejected = []
  exact : ∃ kind, field.value = .scalar kind ∧ kind ≠ .f32 ∧ kind ≠ .f64
  filled : ∃ value, field.default? = some value ∧ value.isFloatFree = true

/-- A table over laboratories whose fields have a slot each, whatever they refuse. -/
structure Lab.IsSlotted (table : HandlerTable Lab) (slotOf : HandlerId → Nat) : Prop where
  described {id : HandlerId} {field : FieldHandler Lab} : table.get? id = some (.field field) →
    ∃ described : LabField, field = described.handler (slotOf id)
  apart {first second : HandlerId} : slotOf first = slotOf second → first = second

/-- A table over laboratories whose fields are plain, each in a slot of its own. -/
structure Lab.IsPlain (table : HandlerTable Lab) (slotOf : HandlerId → Nat) : Prop where
  described {id : HandlerId} {field : FieldHandler Lab} : table.get? id = some (.field field) →
    ∃ described : LabField, field = described.handler (slotOf id) ∧ described.IsPlain
  apart {first second : HandlerId} : slotOf first = slotOf second → first = second

namespace LabField

variable {field : LabField} {slot : Nat} {scope : ScopeId} {target value : Value}
  {index : Option Int32} {lab : Lab}

theorem IsPlain.get (plain : field.IsPlain) (exact : lab.IsExact) :
    ∃ value, field.get slot lab scope target index = some value ∧ value.isFloatFree = true := by
  obtain ⟨default, filled, exactly⟩ := plain.filled
  rw [LabField.get]
  cases found : lab.cell? slot scope target index with
  | some value => exact ⟨value, rfl, exact.cell? found⟩
  | none => exact ⟨default, filled, exactly⟩

/-- The hooks of fields write to the log and nothing else. -/
theorem cells_hook {hook : Hook Lab}
    (either : (field.handler slot).preHook = some hook ∨ (field.handler slot).postHook = some hook)
    (context : CallContext) (target : Value) (state : HostState Lab) :
    (Lockstep.stateAfter (hook context target state)).world.cells = state.world.cells := by
  simp only [handler] at either
  rcases either with before | after
  · split at before
    next => cases before; rfl
    next => cases before
  · split at after
    next => cases after; rfl
    next => cases after

end LabField

namespace Lab

variable {table : HandlerTable Lab} {slotOf : HandlerId → Nat}

theorem IsPlain.slotted (plain : IsPlain table slotOf) : IsSlotted table slotOf where
  described known := by
    obtain ⟨described, same, -⟩ := plain.described known
    exact ⟨described, same⟩
  apart := plain.apart

/-- A table of one field has it in the first slot. -/
theorem isSlotted_of_single {described : LabField}
    (single : table.handlers = [.field (described.handler 0)]) : IsSlotted table UInt32.toNat where
  described {id field} known := by
    rw [HandlerTable.get?, single, List.getElem?_singleton] at known
    split at known
    next first =>
      cases known
      exact ⟨described, by rw [first]⟩
    next => cases known
  apart := UInt32.toNat_inj.mp

/-- What a laboratory shows depends on its cells alone. -/
theorem read?_congr (slotted : IsSlotted table slotOf) {lab other : Lab}
    (same : other.cells = lab.cells) (place : Place) :
    table.read? other place = table.read? lab place := by
  unfold HandlerTable.read?
  split
  next field known =>
    obtain ⟨described, rfl⟩ := slotted.described known
    simp only [LabField.handler, LabField.get, cell?, same]
  next => rfl

theorem declared (plain : IsPlain table slotOf) {id : HandlerId} {field : FieldHandler Lab}
    {resolver : Resolver} {context : WireContext} {bytes rest : Bytes} {value : Value}
    (known : table.get? id = some (.field field))
    (decoded : table.registry.decode resolver context field.value bytes = .ok value rest) :
    value.isFloatFree = true := by
  obtain ⟨described, rfl, isPlain⟩ := plain.described known
  obtain ⟨kind, scalar, exact⟩ := isPlain.exact
  have scalar' : (described.handler (slotOf id)).value = .scalar kind := scalar
  rw [scalar', Registry.decode, Registry.decodeWithin_succ, Registry.decodeLevel] at decoded
  obtain ⟨read, _, readScalar, decoded⟩ := Decoder.bind_eq_ok.mp decoded
  obtain ⟨rfl, _⟩ := Decoder.pure_eq_ok.mp decoded
  have exactly := ScalarKind.isFloat_decode exact (Decoder.mapError_eq_ok.mp readScalar)
  rw [Value.isFloatFree, Value.allScalars, exactly]
  rfl

/-- The cell of a field. -/
def cellOf (slotOf : HandlerId → Nat) (place : Place) (value : Value) : LabCell where
  slot := slotOf place.handler
  scope := place.scope
  target := place.target
  index := place.index
  value := value

/-- A field that is set is a cell that is filled, but for the log. -/
theorem set_eq (plain : IsPlain table slotOf) {place : Place} {field : FieldHandler Lab}
    (known : table.get? place.handler = some (.field field)) (value : Value) (lab : Lab) :
    ∃ noted : Lab, noted.cells = lab.cells ∧
      field.set place.scope place.target place.index value lab =
        .ok () (noted.setCell (cellOf slotOf place value)) := by
  obtain ⟨described, rfl, isPlain⟩ := plain.described known
  refine ⟨lab.note (.set (slotOf place.handler) place.scope place.target place.index value), rfl,
    ?_⟩
  simp only [LabField.handler, LabField.set, isPlain.writable, isPlain.accepting]
  rfl

theorem read?_setCell_self (slotted : IsSlotted table slotOf) (lab : Lab) {place : Place}
    {field : FieldHandler Lab} (known : table.get? place.handler = some (.field field))
    (value : Value) : table.read? (lab.setCell (cellOf slotOf place value)) place = some value := by
  have shown :
      Lab.cell? _ (slotOf place.handler) place.scope place.target place.index = some value :=
    cell?_setCell_self lab (cellOf slotOf place value)
  obtain ⟨described, rfl⟩ := slotted.described known
  rw [HandlerTable.read?_eq place known]
  simp only [LabField.handler, LabField.get, shown]

/-- Filling a cell leaves the others alone. -/
theorem read?_setCell_of_ne (slotted : IsSlotted table slotOf) (lab : Lab) {place other : Place}
    (apart : other ≠ place) (value : Value) :
    table.read? (lab.setCell (cellOf slotOf place value)) other = table.read? lab other := by
  unfold HandlerTable.read?
  split
  next field known =>
    obtain ⟨described, rfl⟩ := slotted.described known
    have away : isAt (slotOf other.handler) other.scope other.target other.index
        (cellOf slotOf place value) = false := by
      refine Bool.eq_false_iff.mpr fun here => apart ?_
      obtain ⟨slots, scopes, targets, indices⟩ := isAt_iff.mp here
      have handlers := slotted.apart slots
      cases place
      cases other
      cases handlers
      cases scopes
      cases targets
      cases indices
      rfl
    simp only [LabField.handler, LabField.get, cell?_setCell_of_ne lab away]
  next => rfl

/-- A laboratory with plain fields only is a host whose fields are cells. -/
def asCells (plain : IsPlain table slotOf) : Cells table where
  valid := IsExact
  there place := ∃ field, table.get? place.handler = some (.field field)
  admits _ value := value.isFloatFree = true
  floatFree exact := exact
  declared known decoded := declared plain known decoded
  holds {lab place} exact there := by
    obtain ⟨field, known⟩ := there
    obtain ⟨described, rfl, isPlain⟩ := plain.described known
    rw [HandlerTable.read?_eq place known]
    exact isPlain.get exact
  nowhere {lab place} _ gone := by
    unfold HandlerTable.read?
    split
    next field known => exact absurd ⟨field, known⟩ gone
    next => rfl
  set_self {lab place field value} _ known _ _ := by
    obtain ⟨noted, _, written⟩ := set_eq plain known value lab
    exact ⟨_, written, read?_setCell_self plain.slotted noted known value⟩
  set_other {lab place field value} exact known exactly := by
    obtain ⟨noted, same, written⟩ := set_eq plain known value lab
    rw [written]
    have exact' : noted.IsExact := by
      rw [IsExact, same]
      exact exact
    refine ⟨exact'.setCell exactly, ?_⟩
    intro other apart
    exact (read?_setCell_of_ne plain.slotted noted apart value).trans
      (read?_congr plain.slotted same other)
  hook {_ _ hook context target state} exact known either := by
    obtain ⟨described, rfl, _⟩ := plain.described known
    have same := LabField.cells_hook either context target state
    refine ⟨?_, fun place => read?_congr plain.slotted same place⟩
    rw [IsExact, same]
    exact exact
  tick exact := ⟨exact, fun _ => rfl⟩

/-- Filling a cell by hand is an edit of its field. -/
theorem edits_setCell (plain : IsPlain table slotOf) {place : Place} {value : Value}
    (exactly : value.isFloatFree = true) :
    (asCells plain).Edits place (setCell (cellOf slotOf place value)) :=
  fun lab exact =>
    ⟨IsExact.setCell exact exactly, fun _ apart => read?_setCell_of_ne plain.slotted lab apart value⟩

/-- A field is refused, or its cell is filled. -/
theorem set_cases (slotted : IsSlotted table slotOf) {place : Place} {field : FieldHandler Lab}
    (known : table.get? place.handler = some (.field field)) (value : Value) (lab : Lab) :
    (∃ error, field.set place.scope place.target place.index value lab =
      .error (.refused error) lab) ∨
    ∃ noted : Lab, noted.cells = lab.cells ∧
      field.set place.scope place.target place.index value lab =
        .ok () (noted.setCell (cellOf slotOf place value)) := by
  obtain ⟨described, rfl⟩ := slotted.described known
  simp only [LabField.handler, LabField.set]
  split
  next => exact .inl ⟨_, rfl⟩
  next =>
    split
    next => exact .inl ⟨_, rfl⟩
    next =>
      exact .inr ⟨lab.note (.set (slotOf place.handler) place.scope place.target place.index value),
        rfl, rfl⟩

/-- Every field of a laboratory is a cell of its own, whatever it refuses. -/
theorem cellAt (slotted : IsSlotted table slotOf) (place : Place) : table.CellAt place where
  taken {field value world next} known written := by
    rcases set_cases slotted known value world with ⟨_, refused⟩ | ⟨noted, -, filled⟩
    · cases written.symm.trans refused
    · cases written.symm.trans filled
      exact read?_setCell_self slotted noted known value
  refused {field value world next fault} known written := by
    rcases set_cases slotted known value world with ⟨_, refused⟩ | ⟨noted, -, filled⟩
    · cases written.symm.trans refused
      rfl
    · cases written.symm.trans filled
  apart {other field value world} ne known := by
    rcases set_cases slotted known value world with ⟨_, refused⟩ | ⟨noted, same, filled⟩
    · rw [refused]
      rfl
    · rw [filled]
      exact (read?_setCell_of_ne slotted noted ne.symm value).trans (read?_congr slotted same place)
  hook known either := by
    obtain ⟨described, rfl⟩ := slotted.described known
    exact read?_congr slotted (LabField.cells_hook either _ _ _) place

end Lab

/-! ## One field -/

/-- A field of integers that holds a three from the start. -/
def level : LabField where
  name := "level"
  target := .scalar .i32
  value := .scalar .i32
  default? := some (.scalar (.i32 3))

def levelTable : HandlerTable Lab :=
  ((Registry.build []).toOption.bind fun registry =>
    (HandlerTable.build registry none (Lab.handlers [.field level])).toOption).get
      (by decide +kernel)

def levelPeer : Peer Lab := (Peer.create {} levelTable {}).toOption.get (by decide +kernel)

/-- The level of the first target. -/
def levelPlace : Place := ⟨0, .global, .scalar (.i32 1), none⟩

/-- Sets the level of the first target to a seven, at once. -/
def levelCommand : Command where
  handler := 0
  scope := .global
  tick := 0
  payload := [1, 0, 0, 0, 7, 0, 0, 0]

/-- Edit the level under a watch. -/
def levelEdit : Lab → Lab := Lab.setCell (Lab.cellOf UInt32.toNat levelPlace (.scalar (.i32 5)))

/-- The level is edited to a five and set to a seven, one after the other. -/
def levelCalls : List (Vigil.Call Lab) := [
  .beginWatch 0 .global (.scalar (.i32 1)) none, .edit levelPlace levelEdit, .endWatch 0 0,
    .flush 0 true,
  .deliver (.command levelCommand), .advance .global]

def levelRun : Vigil Lab := ((Vigil.mk levelPeer []).play levelCalls).get (by decide +kernel)

theorem level_isPlain : level.IsPlain :=
  ⟨rfl, rfl, ⟨.i32, rfl, by decide, by decide⟩, ⟨.scalar (.i32 3), rfl, rfl⟩⟩

theorem levelTable_isPlain : Lab.IsPlain levelTable UInt32.toNat where
  described {id field} known := by
    have handlers : levelTable.handlers = [.field (level.handler 0)] := by rfl
    rw [HandlerTable.get?, handlers, List.getElem?_singleton] at known
    split at known
    next first =>
      cases known
      exact ⟨level, by rw [first], level_isPlain⟩
    next => cases known
  apart := UInt32.toNat_inj.mp

/-- A seven that is set while no watch is open is what the world shows. -/
theorem level_shows_confirmed :
    levelTable.read? levelRun.peer.world levelPlace =
      commanded (levelTable.read? {}) levelRun.events levelPlace ∧
      commanded (levelTable.read? {}) levelRun.events levelPlace = some (.scalar (.i32 7)) := by
  have built : Registry.build [] = .ok levelPeer.table.registry := by rfl
  have played : (Vigil.mk levelPeer []).play levelCalls = some levelRun := (Option.some_get _).symm
  have closed : levelRun.peer.buffer.watches = [] := List.isEmpty_iff.mp (by decide +kernel)
  have there : (Lab.asCells levelTable_isPlain).there levelPlace := ⟨level.handler 0, by rfl⟩
  have spared : ∀ event ∈ levelRun.events, event.Spares levelPlace := by decide +kernel
  have exact : (Lab.asCells levelTable_isPlain).valid levelPeer.world := by
    intro cell member
    cases member
  have lawful (place : Place) (change : Lab → Lab) (member : .edit place change ∈ levelCalls) :
      (Lab.asCells levelTable_isPlain).Edits place change := by
    simp only [levelCalls, List.mem_cons, reduceCtorEq, Vigil.Call.edit.injEq, false_or,
      List.not_mem_nil, or_false] at member
    obtain ⟨rfl, rfl⟩ := member
    exact Lab.edits_setCell levelTable_isPlain rfl
  have shown :=
    Vigil.shows_confirmed (Lab.asCells levelTable_isPlain) built exact rfl rfl lawful played
    closed there
  exact ⟨shown.2.mpr (agrees_of_spared spared), by decide +kernel⟩

/-- The command comes while a watch on the level is open. -/
def overtakenCalls : List (Vigil.Call Lab) := [
  .beginWatch 0 .global (.scalar (.i32 1)) none, .deliver (.command levelCommand), .advance .global,
    .endWatch 0 0]

def overtakenRun : Vigil Lab :=
  ((Vigil.mk levelPeer []).play overtakenCalls).get (by decide +kernel)

/-- What a command sets under an open watch is taken for an edit and taken back. -/
theorem level_overtaken :
    overtakenRun.peer.buffer.watches.isEmpty ∧
      commanded (levelTable.read? {}) overtakenRun.events levelPlace = some (.scalar (.i32 7)) ∧
      levelTable.read? overtakenRun.peer.world levelPlace = some (.scalar (.i32 3)) := by
  decide +kernel

/-- The changes are flushed while a watch on the changed level is open. -/
def flushedCalls : List (Vigil.Call Lab) := [
  .beginWatch 0 .global (.scalar (.i32 1)) none, .edit levelPlace levelEdit, .endWatch 0 0,
  .beginWatch 0 .global (.scalar (.i32 1)) none, .flush 0 false, .endWatch 1 0]

-- A flush takes the change that the watch has put back for what peers agree on, drops it, and the
-- edit stays.
example :
    let run := ((Vigil.mk levelPeer []).play flushedCalls).get (by decide +kernel)
    run.peer.buffer.watches.isEmpty ∧
      commanded (levelTable.read? {}) run.events levelPlace = some (.scalar (.i32 3)) ∧
      levelTable.read? run.peer.world levelPlace = some (.scalar (.i32 5)) := by
  decide +kernel

end Lockstep
