import Lockstep.Proofs.Handler.Numbers
import Lockstep.Proofs.Watch.Coalescing
import Lockstep.World.Colony.Handlers

/-! # Colonies as hosts of cells

The fields of a colony are cells of their own as far as watches can tell (`Colony.fieldCells`): a worker's
priority, each of a worker's skills, and the level of alert. Most of what a field is asked with does not
matter to it. A priority goes by any index, the level of alert by any scope, and a worker by any reference
with the right number; so each field is known by one of the places that it goes by. While workers stay
and priorities are in range, edits under watches are told as they are on any host of cells
(`Colony.tells_last_edits`).
-/

namespace Lockstep.Colony

/-! ## Fields -/

/-- What a field of the colony is about. -/
inductive FieldKind where
  | priority
  | skill
  | alert
  deriving DecidableEq

namespace FieldKind

/-- The numbers that a field takes. -/
def Admits : FieldKind → Int32 → Prop
  | priority, n => 0 ≤ n ∧ n ≤ 9
  | skill, _ | alert, _ => True

def handler : FieldKind → FieldHandler Colony
  | priority => priorityField
  | skill => skillField
  | alert => alertField

/-- The number of a field in the table. -/
def number (kind : FieldKind) : HandlerId :=
  UInt32.ofNat (HandlerTable.rank handlers kind.handler.name)

/-- What a number is the number of. -/
def ofNumber? (id : HandlerId) : Option FieldKind :=
  [priority, skill, alert].find? fun kind => kind.number = id

theorem ofNumber?_number (kind : FieldKind) : ofNumber? kind.number = some kind := by
  cases kind <;> decide +kernel

theorem number_injective {first second : FieldKind} (same : first.number = second.number) :
    first = second := by
  have found := ofNumber?_number first
  rw [same, ofNumber?_number] at found
  exact (Option.some.inj found).symm

theorem ofNumber?_eq_some_iff {id : HandlerId} {kind : FieldKind} :
    ofNumber? id = some kind ↔ kind.number = id := by
  constructor
  · intro found
    have same := List.find?_some (p := fun kind : FieldKind => decide (kind.number = id)) found
    exact of_decide_eq_true same
  · rintro rfl
    exact ofNumber?_number kind

end FieldKind

theorem registry_built : Registry.build declarations = .ok registry := by rfl

theorem table_built : HandlerTable.build registry (some (.named workerType)) handlers = .ok table := by
  rfl

/-- The fields of the table. -/
theorem get?_eq_field_iff {id : HandlerId} {field : FieldHandler Colony} :
    table.get? id = some (.field field) ↔ ∃ kind : FieldKind, kind.number = id ∧ kind.handler = field := by
  rw [HandlerTable.get?_eq_some_iff table_built]
  constructor
  · rintro ⟨member, rfl⟩
    simp only [handlers, List.mem_cons, Handler.field.injEq, reduceCtorEq, or_false,
      List.not_mem_nil] at member
    rcases member with rfl | rfl | rfl
    · exact ⟨.priority, rfl, rfl⟩
    · exact ⟨.skill, rfl, rfl⟩
    · exact ⟨.alert, rfl, rfl⟩
  · rintro ⟨kind, rfl, rfl⟩
    refine ⟨?_, rfl⟩
    cases kind <;> simp [handlers, FieldKind.handler]

/-! ## Spots -/

/-- Where a colony has a number that a field shows. -/
inductive Spot where
  | priority (scope : ScopeId) (id : EntityId)
  | skill (scope : ScopeId) (id : EntityId) (index : Int32)
  | alert

namespace Spot

def kind : Spot → FieldKind
  | priority _ _ => .priority
  | skill _ _ _ => .skill
  | alert => .alert

/-- The number at a spot, if there is one. -/
def read (colony : Colony) : Spot → Option Int32
  | priority scope id => (colony.worker? scope id).map (·.priority)
  | skill scope id index => do (← colony.worker? scope id).skills[← slotOf? index]?
  | alert => some colony.alertLevel

/-- Put a number at a spot. -/
def write (colony : Colony) (n : Int32) : Spot → Colony
  | priority scope id => colony.setPriority scope id n
  | skill scope id index => ((slotOf? index).map (colony.setSkill scope id · n)).getD colony
  | alert => colony.setAlert n

/-- The place that the field of a spot is known by. -/
def place (spot : Spot) : Place :=
  match spot with
  | priority scope id => ⟨spot.kind.number, scope, workerRef id, none⟩
  | skill scope id index => ⟨spot.kind.number, scope, workerRef id, some index⟩
  | alert => ⟨spot.kind.number, .global, .unit, none⟩

/-- The spot that a place stands for. -/
def ofPlace? (place : Place) : Option Spot :=
  match FieldKind.ofNumber? place.handler with
  | some .priority => (workerId? place.target).map (priority place.scope)
  | some .skill => do return skill place.scope (← workerId? place.target) (← place.index)
  | some .alert => some alert
  | none => none

theorem handler_place (spot : Spot) : spot.place.handler = spot.kind.number := by
  cases spot with
  | priority | skill | alert => rfl

theorem ofPlace?_place (spot : Spot) : ofPlace? spot.place = some spot := by
  rw [ofPlace?, handler_place, FieldKind.ofNumber?_number]
  cases spot with
  | priority | skill | alert => rfl

end Spot

/-- What the colony shows at a place. -/
theorem read?_eq (colony : Colony) (place : Place) : table.read? colony place =
    (Spot.ofPlace? place).bind fun spot => (spot.read colony).map fun n => .scalar (.i32 n) := by
  unfold HandlerTable.read? Spot.ofPlace?
  cases named : FieldKind.ofNumber? place.handler with
  | none =>
    split
    next field known =>
      obtain ⟨kind, same, -⟩ := get?_eq_field_iff.mp known
      cases named.symm.trans (FieldKind.ofNumber?_eq_some_iff.mpr same)
    next => rfl
  | some kind =>
    have known : table.get? place.handler = some (.field kind.handler) :=
      get?_eq_field_iff.mpr ⟨kind, FieldKind.ofNumber?_eq_some_iff.mp named, rfl⟩
    rw [known]
    cases kind with
    | priority =>
      change getPriority colony place.scope place.target place.index = _
      unfold getPriority
      cases workerId? place.target with
      | none => rfl
      | some id =>
        simp only [Option.bind_eq_bind, Option.bind_some, Option.map_some, Spot.read]
        cases colony.worker? place.scope id with
        | none => rfl
        | some worker => rfl
    | skill =>
      change getSkill colony place.scope place.target place.index = _
      unfold getSkill
      cases workerId? place.target with
      | none => rfl
      | some id =>
        cases place.index with
        | none =>
          simp only [Option.bind_eq_bind, Option.bind_some]
          cases colony.worker? place.scope id with
          | none => rfl
          | some worker => rfl
        | some index =>
          simp only [Option.bind_eq_bind, Option.bind_some, Option.pure_def, Spot.read, Option.map_bind]
          cases colony.worker? place.scope id with
          | none => rfl
          | some worker =>
            cases slotOf? index with
            | none => rfl
            | some slot => exact (Option.map_eq_bind ..).symm
    | alert => rfl

theorem read?_place (colony : Colony) (spot : Spot) :
    table.read? colony spot.place = (spot.read colony).map fun n => .scalar (.i32 n) := by
  rw [read?_eq, Spot.ofPlace?_place, Option.bind_some]

/-! ## Writing -/

theorem worker?_editWorker (colony : Colony) (scope other : ScopeId) (id otherId : EntityId)
    (f : Worker → Worker) : (colony.editWorker scope id f).worker? other otherId =
      if other = scope ∧ otherId = id then (colony.worker? other otherId).map f
      else colony.worker? other otherId := by
  unfold editWorker worker?
  by_cases sameScope : other = scope
  · subst sameScope
    rw [SortedMap.get?_modify_self]
    cases colony.maps.get? other with
    | none => simp
    | some map =>
      by_cases sameId : otherId = id
      · subst sameId
        simp
      · simp [sameId, SortedMap.get?_modify_of_ne]
  · rw [SortedMap.get?_modify_of_ne _ _ sameScope, if_neg fun both => sameScope both.1]

theorem slotOf?_injective {first second : Int32} {slot : Nat} (left : slotOf? first = some slot)
    (right : slotOf? second = some slot) : first = second := by
  unfold slotOf? at left right
  split at left
  next below =>
    split at right
    next below' =>
      rw [Int32.le_iff_toInt_le, Int32.toInt_zero] at below below'
      cases left
      have same : second.toInt.toNat = first.toInt.toNat := Option.some.inj right
      exact Int32.toInt_inj.mp (by omega)
    next => cases right
  next => cases left

theorem targetWorker_eq {colony : Colony} {scope : ScopeId} {id : EntityId} {worker : Worker}
    (found : colony.worker? scope id = some worker) :
    targetWorker scope (workerRef id) colony = .ok (id, worker) colony := by
  have looked : targetWorker scope (workerRef id) colony =
      (do
        let worker ← require (colony.worker? scope id) (.invalidState s!"no worker {id} in {scope.display}")
        return (id, worker) : EStateM HostFault Colony (EntityId × Worker)) colony := rfl
  rw [looked, found]
  rfl

/-- Workers are those of a list, with as many skills as it says, and their priorities are in range. -/
structure Staffed (staff : ScopeId → EntityId → Option Nat) (colony : Colony) : Prop where
  skills (scope : ScopeId) (id : EntityId) :
    (colony.worker? scope id).map (·.skills.length) = staff scope id
  priorities {scope : ScopeId} {id : EntityId} {worker : Worker} :
    colony.worker? scope id = some worker → FieldKind.priority.Admits worker.priority

/-- Changing a worker takes nobody away. -/
theorem Staffed.editWorker {staff : ScopeId → EntityId → Option Nat} {colony : Colony}
    (staffed : colony.Staffed staff) (scope : ScopeId) (id : EntityId) {f : Worker → Worker}
    (skills : ∀ worker, (f worker).skills.length = worker.skills.length)
    (priorities : ∀ worker, FieldKind.priority.Admits worker.priority →
      FieldKind.priority.Admits (f worker).priority) : (colony.editWorker scope id f).Staffed staff where
  skills other otherId := by
    rw [← staffed.skills, worker?_editWorker]
    split
    · rw [Option.map_map]
      exact congrArg (Option.map · _) (funext skills)
    · rfl
  priorities {other otherId worker} found := by
    rw [worker?_editWorker] at found
    split at found
    next =>
      obtain ⟨before, known, rfl⟩ := Option.map_eq_some_iff.mp found
      exact priorities before (staffed.priorities known)
    next => exact staffed.priorities found

namespace Spot

/-- There is a number at a spot. -/
def There (staff : ScopeId → EntityId → Option Nat) : Spot → Prop
  | priority scope id => (staff scope id).isSome
  | skill scope id index => ∃ slot count, slotOf? index = some slot ∧ staff scope id = some count ∧
      slot < count
  | alert => True

variable {staff : ScopeId → EntityId → Option Nat} {colony : Colony} {spot other : Spot} {n : Int32}

theorem read_eq_some (staffed : colony.Staffed staff) (there : spot.There staff) :
    ∃ n, spot.read colony = some n ∧ spot.kind.Admits n := by
  cases spot with
  | priority scope id =>
    have skills := staffed.skills scope id
    cases found : colony.worker? scope id with
    | none =>
      rw [found] at skills
      rw [There, ← skills] at there
      cases there
    | some worker => exact ⟨worker.priority, by rw [read, found]; rfl, staffed.priorities found⟩
  | skill scope id index =>
    obtain ⟨slot, count, here, listed, below⟩ := there
    have skills := staffed.skills scope id
    rw [listed] at skills
    obtain ⟨worker, found, rfl⟩ := Option.map_eq_some_iff.mp skills
    refine ⟨worker.skills[slot], ?_, trivial⟩
    rw [read, found, here]
    exact List.getElem?_eq_getElem below
  | alert => exact ⟨colony.alertLevel, rfl, trivial⟩

theorem read_eq_none (staffed : colony.Staffed staff) (gone : ¬ spot.There staff) :
    spot.read colony = none := by
  cases spot with
  | priority scope id =>
    have skills := staffed.skills scope id
    cases found : colony.worker? scope id with
    | none => rw [read, found]; rfl
    | some worker =>
      rw [found] at skills
      exact absurd (by rw [There, ← skills]; rfl) gone
  | skill scope id index =>
    have skills := staffed.skills scope id
    cases found : colony.worker? scope id with
    | none => rw [read, found]; rfl
    | some worker =>
      rw [found] at skills
      cases here : slotOf? index with
      | none => rw [read, found, here]; rfl
      | some slot =>
        rw [read, found, here]
        exact List.getElem?_eq_none (Nat.not_lt.mp fun below =>
          gone ⟨slot, _, here, skills.symm, below⟩)
  | alert => exact absurd trivial gone

/-- A number that has been put at a spot is there. -/
theorem read_write_self (staffed : colony.Staffed staff) (there : spot.There staff) (n : Int32) :
    spot.read (spot.write colony n) = some n := by
  cases spot with
  | priority scope id =>
    obtain ⟨count, listed⟩ := Option.isSome_iff_exists.mp there
    obtain ⟨worker, found, -⟩ := Option.map_eq_some_iff.mp ((staffed.skills scope id).trans listed)
    rw [read, write, setPriority, worker?_editWorker, if_pos ⟨rfl, rfl⟩, found]
    rfl
  | skill scope id index =>
    obtain ⟨slot, count, here, listed, below⟩ := there
    obtain ⟨worker, found, rfl⟩ := Option.map_eq_some_iff.mp ((staffed.skills scope id).trans listed)
    rw [read, write, here, Option.map_some, Option.getD_some, setSkill, worker?_editWorker,
      if_pos ⟨rfl, rfl⟩, found]
    exact List.getElem?_set_self below
  | alert => rfl

/-- What is put at one spot is at no other. -/
theorem read_write_of_ne (ne : other ≠ spot) (colony : Colony) (n : Int32) :
    other.read (spot.write colony n) = other.read colony := by
  cases spot with
  | priority scope id =>
    cases other with
    | priority scope' id' =>
      have apart : ¬(scope' = scope ∧ id' = id) := fun ⟨sameScope, sameId⟩ =>
        ne (sameScope ▸ sameId ▸ rfl)
      rw [read, write, setPriority, worker?_editWorker, if_neg apart, read]
    | skill scope' id' index =>
      rw [read, write, setPriority, worker?_editWorker, read]
      split
      · cases colony.worker? scope' id' with
        | none | some => rfl
      · rfl
    | alert => rfl
  | skill scope id index =>
    rw [write]
    cases here : slotOf? index with
    | none => rfl
    | some slot =>
      rw [Option.map_some, Option.getD_some, setSkill]
      cases other with
      | priority scope' id' =>
        rw [read, worker?_editWorker, read]
        split
        · cases colony.worker? scope' id' with
          | none | some => rfl
        · rfl
      | skill scope' id' index' =>
        rw [read, worker?_editWorker, read]
        split
        next same =>
          cases colony.worker? scope' id' with
          | none => rfl
          | some worker =>
            cases here' : slotOf? index' with
            | none => rfl
            | some slot' =>
              have apart : slot ≠ slot' := by
                rintro rfl
                exact ne (same.1 ▸ same.2 ▸ slotOf?_injective here' here ▸ rfl)
              exact List.getElem?_set_ne apart
        next => rfl
      | alert => rfl
  | alert =>
    cases other with
    | priority | skill => rfl
    | alert => exact absurd rfl ne

theorem staffed_write (staffed : colony.Staffed staff) (spot : Spot) (admitted : spot.kind.Admits n) :
    (spot.write colony n).Staffed staff := by
  cases spot with
  | priority scope id => exact staffed.editWorker scope id (fun _ => rfl) fun _ _ => admitted
  | skill scope id index =>
    rw [write]
    cases slotOf? index with
    | none => exact staffed
    | some slot => exact staffed.editWorker scope id (fun _ => List.length_set) fun _ inRange => inRange
  | alert => exact ⟨staffed.skills, staffed.priorities⟩

/-- A number that a field takes is put where the field is. -/
theorem set_eq (staffed : colony.Staffed staff) (there : spot.There staff)
    (admitted : spot.kind.Admits n) :
    spot.kind.handler.set spot.place.scope spot.place.target spot.place.index (.scalar (.i32 n)) colony =
      .ok () (spot.write colony n) := by
  cases spot with
  | priority scope id =>
    obtain ⟨count, listed⟩ := Option.isSome_iff_exists.mp there
    obtain ⟨worker, found, -⟩ := Option.map_eq_some_iff.mp ((staffed.skills scope id).trans listed)
    have inRange : (n < 0 || 9 < n) = false := by
      rw [Bool.or_eq_false_iff, decide_eq_false_iff_not, decide_eq_false_iff_not]
      exact ⟨Int32.not_lt.mpr admitted.1, Int32.not_lt.mpr admitted.2⟩
    change changePriority scope (workerRef id) none (.scalar (.i32 n)) colony = _
    simp only [changePriority, bind, EStateM.bind, intOf?, require, pure, EStateM.pure, inRange,
      Bool.false_eq_true, if_false, targetWorker_eq found]
    rfl
  | skill scope id index =>
    obtain ⟨slot, count, here, listed, below⟩ := there
    obtain ⟨worker, found, rfl⟩ := Option.map_eq_some_iff.mp ((staffed.skills scope id).trans listed)
    change changeSkill scope (workerRef id) (some index) (.scalar (.i32 n)) colony = _
    simp only [changeSkill, bind, EStateM.bind, intOf?, require, pure, EStateM.pure, Option.bind_some,
      here, targetWorker_eq found, Nat.not_le.mpr below, if_false, write, Option.map_some,
      Option.getD_some]
    rfl
  | alert => rfl

end Spot

/-- A number that its field admits changes what is shown at its own spot, and nothing else. -/
theorem Spot.moves_write {staff : ScopeId → EntityId → Option Nat} {colony : Colony} {spot : Spot}
    {n : Int32} (staffed : colony.Staffed staff) (admitted : spot.kind.Admits n) :
    (spot.write colony n).Staffed staff ∧
      ∀ place, (∃ other : Spot, other.place = place ∧ other.There staff) → place ≠ spot.place →
        table.read? (spot.write colony n) place = table.read? colony place := by
  refine ⟨spot.staffed_write staffed admitted, ?_⟩
  rintro _ ⟨other, rfl, -⟩ apart
  have ne : other ≠ spot := fun same => apart (congrArg Spot.place same)
  rw [read?_place, read?_place, Spot.read_write_of_ne ne]

/-! ## Cells -/

/-- A colony with a list of workers is a host whose fields are cells. -/
def fieldCells (staff : ScopeId → EntityId → Option Nat) : FieldCells table where
  valid := Staffed staff
  there place := ∃ spot : Spot, spot.place = place ∧ spot.There staff
  admits id value :=
    ∃ n, value = .scalar (.i32 n) ∧ ∀ kind : FieldKind, kind.number = id → kind.Admits n
  canonical place := ((Spot.ofPlace? place).map Spot.place).getD place
  floatFree := by
    rintro _ _ ⟨n, rfl, -⟩
    rfl
  holds := by
    rintro colony _ staffed ⟨spot, rfl, there⟩
    obtain ⟨n, shown, admitted⟩ := spot.read_eq_some staffed there
    refine ⟨.scalar (.i32 n), by rw [read?_place, shown]; rfl, n, rfl, fun kind same => ?_⟩
    rw [spot.handler_place] at same
    exact FieldKind.number_injective same ▸ admitted
  alike {colony} place _ := by
    cases standing : Spot.ofPlace? place with
    | none => rfl
    | some spot =>
      rw [Option.map_some, Option.getD_some, read?_place, read?_eq, standing]
      rfl
  nowhere {colony place} staffed gone := by
    rw [read?_eq]
    cases standing : Spot.ofPlace? place with
    | none => rfl
    | some spot =>
      rw [standing] at gone
      rw [Option.bind_some, spot.read_eq_none staffed fun there => gone ⟨spot, rfl, there⟩]
      rfl
  set_self := by
    rintro colony _ field _ staffed known ⟨spot, rfl, there⟩ ⟨n, rfl, admitted⟩
    obtain ⟨kind, same, rfl⟩ := get?_eq_field_iff.mp known
    obtain rfl := FieldKind.number_injective (same.trans spot.handler_place)
    refine ⟨_, spot.set_eq staffed there (admitted _ spot.handler_place.symm), ?_⟩
    rw [read?_place, spot.read_write_self staffed there]
    rfl
  set_other := by
    rintro colony _ field _ staffed known ⟨spot, rfl, there⟩ ⟨n, rfl, admitted⟩
    obtain ⟨kind, same, rfl⟩ := get?_eq_field_iff.mp known
    obtain rfl := FieldKind.number_injective (same.trans spot.handler_place)
    have admitted := admitted _ spot.handler_place.symm
    rw [spot.set_eq staffed there admitted]
    exact spot.moves_write staffed admitted

/-- Putting a number where a field takes it is an edit of that field. -/
theorem edits_write (staff : ScopeId → EntityId → Option Nat) {spot : Spot} {n : Int32}
    (admitted : spot.kind.Admits n) :
    (fieldCells staff).Edits spot.place fun colony => spot.write colony n := by
  intro colony staffed
  obtain ⟨kept, elsewhere⟩ := spot.moves_write staffed admitted
  exact ⟨kept, elsewhere _⟩

/-- The workers of a colony, by the number of their skills. -/
def staff (colony : Colony) (scope : ScopeId) (id : EntityId) : Option Nat :=
  (colony.worker? scope id).map (·.skills.length)

/-- Whatever is edited in a colony whose priorities are in range: once all watches are closed the colony
shows what it showed at the start, and the last edit of each field is sent. -/
theorem tells_last_edits {colony : Colony}
    (inRange : ∀ scope id worker, colony.worker? scope id = some worker →
      FieldKind.priority.Admits worker.priority)
    {calls : List (Drafting.Call Colony)} (opens : ∀ call ∈ calls, call.OpensKnown (fieldCells colony.staff))
    (lawful : ∀ place change, .edit place change ∈ calls → (fieldCells colony.staff).Edits place change)
    {run : Drafting Colony} (played : (Drafting.mk ⟨{}, colony⟩ []).play table calls = some run)
    (closed : run.watched.buffer.watches = []) :
    (∀ place, table.read? run.watched.world place = table.read? colony place) ∧
      ∃ changes, run.watched.buffer.SentOnce table run.watched.world changes ∧
        ∀ place, table.destined changes place =
          ((run.edits.lookup place).filter (table.read? colony place ≠ some ·)).toList := by
  have staffed : (fieldCells colony.staff).valid colony := ⟨fun _ _ => rfl, fun {_ _ _} => inRange _ _ _⟩
  have sound : table.registry.Sound := by
    rw [HandlerTable.registry_of_build table_built]
    exact Registry.sound_of_build registry_built
  have start : Drafts (fieldCells colony.staff) (table.read? colony) ⟨⟨{}, colony⟩, []⟩ :=
    .start (.of_idle staffed rfl rfl) rfl rfl
  exact (start.play sound opens lawful played).outcome closed sound staffed

-- Two edits of a priority under one watch are one change.
example :
    let priority : Spot := .priority (.map 1) 1
    let run := (Drafting.mk ⟨{}, ofMaps [(1, [(1, "Ada")])]⟩ []).play table [
      .beginWatch 0 (.map 1) (workerRef 1) none, .edit priority.place (priority.write · 5),
      .edit priority.place (priority.write · 7), .endWatch 0 fun _ => none]
    run.map (fun run => (table.read? run.watched.world priority.place,
      run.watched.buffer.changes.map (·.pending))) =
        some (some (.scalar (.i32 3)), [.scalar (.i32 7)]) := by
  decide +kernel

end Lockstep.Colony
