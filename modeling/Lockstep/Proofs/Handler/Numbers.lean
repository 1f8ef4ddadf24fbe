import Lockstep.Proofs.Handler.Table
import Lockstep.Proofs.NameOrder
import Lockstep.Proofs.Schema.Registry

/-! # Numbers of handlers

A handler is numbered by the rank of its name: by how many handlers of the table have a lesser one. The
names of a table are all different, so the numbers, the fingerprint and what stands behind a number do
not depend on the order of registration (`numbers_in_any_order`); a handle, which does, leads to the
handler that it was given out for.
-/

namespace Lockstep

namespace HandlerTable

variable {W : Type} {table : HandlerTable W} {registry : Registry} {selectionType? : Option Ty}
  {handlers others : List (Handler W)}

/-! ## Names that come twice -/

/-- Among names in order the same ones are neighbours. -/
theorem firstDuplicate_eq_none_iff {names : List String} (ordered : names.Pairwise (· ≤ ·)) :
    firstDuplicate names = none ↔ names.Nodup := by
  fun_induction firstDuplicate names with
  | case1 a rest => simp
  | case2 a b rest apart ih =>
    obtain ⟨least, ordered⟩ := List.pairwise_cons.mp ordered
    have fresh : a ∉ b :: rest := by
      intro member
      rcases List.mem_cons.mp member with same | member
      · exact apart same
      · have le := (List.pairwise_cons.mp ordered).1 a member
        exact apart (String.le_antisymm (least b List.mem_cons_self) le)
    rw [ih ordered, List.nodup_cons (a := a)]
    exact (and_iff_right fresh).symm
  | case3 names short =>
    match names, short with
    | [], _ => simp
    | [a], _ => simp
    | a :: b :: rest, short => exact absurd rfl (short a b rest)

/-! ## Handlers by name -/

/-- The handlers in name order. -/
def ordered (handlers : List (Handler W)) : List (Handler W) := (nameOrder handlers).map (·.1)

theorem ordered_perm (handlers : List (Handler W)) : (ordered handlers).Perm handlers := by
  have perm := (sortByName_perm (·.1.name) handlers.zipIdx).map (·.1)
  rwa [List.zipIdx_map_fst] at perm

theorem pairwise_ordered (handlers : List (Handler W)) :
    (ordered handlers).Pairwise fun a b => a.name ≤ b.name :=
  List.pairwise_map.mpr (pairwise_sortByName (·.1.name) handlers.zipIdx)

/-- The names of handlers are all different. -/
def Distinct (handlers : List (Handler W)) : Prop := (handlers.map (·.name)).Nodup

theorem Distinct.perm (distinct : Distinct handlers) (perm : handlers.Perm others) : Distinct others :=
  (perm.map _).nodup_iff.mp distinct

theorem Distinct.ascending (distinct : Distinct handlers) :
    (ordered handlers).Pairwise fun a b => a.name < b.name :=
  pairwise_name_lt (distinct.perm (ordered_perm handlers).symm) (pairwise_ordered handlers)

/-- The number of a name: how many handlers have a lesser one. -/
def rank (handlers : List (Handler W)) (name : String) : Nat :=
  handlers.countP fun handler => decide (handler.name < name)

/-- In name order a handler stands at the rank of its name. -/
theorem Distinct.rank_eq (distinct : Distinct handlers) {place : Nat} {handler : Handler W}
    (found : (ordered handlers)[place]? = some handler) : rank handlers handler.name = place := by
  rw [rank, ← (ordered_perm handlers).countP_eq]
  exact countP_name_lt distinct.ascending found

/-! ## Built tables -/

theorem firstDuplicate_nameOrder :
    firstDuplicate ((nameOrder handlers).map (·.1.name)) = none ↔ Distinct handlers := by
  have names : (nameOrder handlers).map (·.1.name) = (ordered handlers).map (·.name) := by
    rw [ordered, List.map_map]
    rfl
  rw [names, firstDuplicate_eq_none_iff (List.pairwise_map.mpr (pairwise_ordered handlers))]
  exact ((ordered_perm handlers).map _).nodup_iff

/-- The table that handlers make. -/
def ofHandlers (registry : Registry) (selectionType? : Option Ty) (handlers : List (Handler W)) :
    HandlerTable W where
  registry
  selectionType := selectionType?.getD .unit
  handlers := ordered handlers
  slots := (List.range handlers.length).map fun place =>
    UInt32.ofNat ((nameOrder handlers).findIdx fun entry => entry.2 == place)

/-- Handlers make a table exactly if they can be counted, use declared types and have different names. -/
theorem build_eq_ok_iff :
    build registry selectionType? handlers = .ok table ↔
      handlers.length < UInt32.size ∧
        (∀ handler ∈ handlers, checkHandler registry selectionType? handler = .ok ()) ∧
        Distinct handlers ∧ table = ofHandlers registry selectionType? handlers := by
  rw [← forM_eq_ok, ← firstDuplicate_nameOrder]
  unfold build
  constructor
  · intro built
    split at built
    next => cases built
    next few =>
      obtain ⟨_, checked, built⟩ := bind_eq_ok.mp built
      simp only at built
      split at built
      next => cases built
      next distinct =>
        cases built
        exact ⟨Nat.not_le.mp few, checked, distinct, rfl⟩
  · rintro ⟨few, checked, distinct, rfl⟩
    rw [if_neg (Nat.not_le.mpr few)]
    refine bind_eq_ok.mpr ⟨(), checked, ?_⟩
    simp only [distinct]
    rfl

/-- A table numbers handlers by name: a number stands for the handler whose name has it as its rank, names
are looked up to it, and each handle leads to the handler that it was given out for. -/
structure Numbers (table : HandlerTable W) (handlers : List (Handler W)) : Prop where
  size : table.size = handlers.length
  number : ∀ handler ∈ handlers,
    (UInt32.ofNat (rank handlers handler.name)).toNat = rank handlers handler.name
  get? : ∀ {id : HandlerId} {handler : Handler W}, table.get? id = some handler ↔
    handler ∈ handlers ∧ id = UInt32.ofNat (rank handlers handler.name)
  idOfName? : ∀ handler ∈ handlers,
    table.idOfName? handler.name = some (UInt32.ofNat (rank handlers handler.name))
  idOfName?_eq_none : ∀ {name : String},
    table.idOfName? name = none ↔ ∀ handler ∈ handlers, handler.name ≠ name
  nameOf : ∀ handler ∈ handlers,
    table.nameOf (UInt32.ofNat (rank handlers handler.name)) = handler.name
  field : ∀ {handle : Handle} {handler : FieldHandler W}, handlers[handle]? = some (.field handler) →
    table.field handle = .ok (UInt32.ofNat (rank handlers handler.name), handler)
  operation : ∀ {handle : Handle} {handler : OperationHandler W},
    handlers[handle]? = some (.operation handler) →
      table.operation handle = .ok (UInt32.ofNat (rank handlers handler.name), handler)
  closure : ∀ {handle : Handle} {handler : ClosureHandler W},
    handlers[handle]? = some (.closure handler) →
      table.closure handle = .ok (UInt32.ofNat (rank handlers handler.name), handler)

/-- In name order every handler is found at the rank of its name. -/
theorem Distinct.getElem?_rank (distinct : Distinct handlers) {handler : Handler W}
    (member : handler ∈ handlers) : (ordered handlers)[rank handlers handler.name]? = some handler := by
  obtain ⟨place, found⟩ := List.mem_iff_getElem?.mp ((ordered_perm handlers).mem_iff.mpr member)
  rwa [distinct.rank_eq found]

/-- A place of registration is found at the rank of its handler's name. -/
theorem Distinct.findIdx_place (distinct : Distinct handlers) {place : Nat} {handler : Handler W}
    (registered : handlers[place]? = some handler) :
    ((nameOrder handlers).findIdx fun entry => entry.2 == place) = rank handlers handler.name := by
  have member : (handler, place) ∈ nameOrder handlers :=
    (sortByName_perm _ _).mem_iff.mpr (List.mk_mem_zipIdx_iff_getElem?.mpr registered)
  have inside : ((nameOrder handlers).findIdx fun entry => entry.2 == place) <
      (nameOrder handlers).length :=
    List.findIdx_lt_length_of_exists ⟨_, member, beq_self_eq_true place⟩
  have here := List.getElem?_eq_getElem inside
  have placed := eq_of_beq (List.findIdx_getElem (w := inside))
  have known := List.mem_zipIdx_iff_getElem?.mp
    ((sortByName_perm _ _).mem_iff.mp (List.getElem_mem inside))
  rw [placed, registered] at known
  refine (distinct.rank_eq ?_).symm
  rw [ordered, List.getElem?_map, here, Option.map_some, known]

/-- The number behind a handle. -/
theorem slot_of_build (built : build registry selectionType? handlers = .ok table) {handle : Handle}
    {handler : Handler W} (registered : handlers[handle]? = some handler) (expected : String) :
    table.slot handle expected = .ok (UInt32.ofNat (rank handlers handler.name)) := by
  obtain ⟨-, -, distinct, rfl⟩ := build_eq_ok_iff.mp built
  obtain ⟨inside, -⟩ := List.getElem?_eq_some_iff.mp registered
  have behind : (ofHandlers registry selectionType? handlers).slots[handle]? =
      some (UInt32.ofNat (rank handlers handler.name)) := by
    rw [ofHandlers, List.getElem?_map, List.getElem?_range inside, Option.map_some,
      distinct.findIdx_place registered]
  rw [slot, behind]

/-- The handlers of a table can be counted in a number. -/
theorem number_of_build (built : build registry selectionType? handlers = .ok table) (name : String) :
    (UInt32.ofNat (rank handlers name)).toNat = rank handlers name := by
  obtain ⟨few, -⟩ := build_eq_ok_iff.mp built
  exact UInt32.toNat_ofNat_of_lt' (Nat.lt_of_le_of_lt List.countP_le_length few)

/-- What stands behind a number. -/
theorem get?_eq_some_iff (built : build registry selectionType? handlers = .ok table) {id : HandlerId}
    {handler : Handler W} :
    table.get? id = some handler ↔
      handler ∈ handlers ∧ id = UInt32.ofNat (rank handlers handler.name) := by
  have number := number_of_build built
  obtain ⟨-, -, distinct, rfl⟩ := build_eq_ok_iff.mp built
  constructor
  · intro found
    refine ⟨(ordered_perm handlers).mem_iff.mp (List.mem_of_getElem? found), ?_⟩
    rw [distinct.rank_eq found, UInt32.ofNat_toNat]
  · rintro ⟨member, rfl⟩
    rw [get?, number]
    exact distinct.getElem?_rank member

/-- Names are looked up by halving, and those of the table are found where they stand. -/
theorem idOfName?_eq_some_iff (built : build registry selectionType? handlers = .ok table) {name : String}
    {id : HandlerId} :
    table.idOfName? name = some id ↔
      ∃ handler ∈ handlers, handler.name = name ∧ id = UInt32.ofNat (rank handlers name) := by
  obtain ⟨-, -, distinct, rfl⟩ := build_eq_ok_iff.mp built
  simp only [idOfName?, ofHandlers, Option.map_eq_some_iff, searchByName_eq_some_iff distinct.ascending]
  constructor
  · rintro ⟨place, ⟨handler, found, rfl⟩, rfl⟩
    refine ⟨handler, (ordered_perm handlers).mem_iff.mp (List.mem_of_getElem? found), rfl, ?_⟩
    rw [distinct.rank_eq found]
  · rintro ⟨handler, member, rfl, rfl⟩
    exact ⟨_, ⟨handler, distinct.getElem?_rank member, rfl⟩, rfl⟩

/-- At the rank of its name stands the handler itself. -/
theorem get?_rank (built : build registry selectionType? handlers = .ok table) {handler : Handler W}
    (member : handler ∈ handlers) : table.get? (UInt32.ofNat (rank handlers handler.name)) = some handler :=
  (get?_eq_some_iff built).mpr ⟨member, rfl⟩

theorem idOfName?_eq_none_iff (built : build registry selectionType? handlers = .ok table) {name : String} :
    table.idOfName? name = none ↔ ∀ handler ∈ handlers, handler.name ≠ name := by
  rw [Option.eq_none_iff_forall_ne_some]
  constructor
  · intro unknown handler member same
    exact unknown _ ((idOfName?_eq_some_iff built).mpr ⟨handler, member, same, rfl⟩)
  · intro absent id found
    obtain ⟨handler, member, same, -⟩ := (idOfName?_eq_some_iff built).mp found
    exact absent handler member same

theorem numbers_of_build (built : build registry selectionType? handlers = .ok table) :
    table.Numbers handlers where
  size := by
    obtain ⟨-, -, -, rfl⟩ := build_eq_ok_iff.mp built
    exact (ordered_perm handlers).length_eq
  number _ _ := number_of_build built _
  get? := get?_eq_some_iff built
  idOfName? handler member := (idOfName?_eq_some_iff built).mpr ⟨handler, member, rfl, rfl⟩
  idOfName?_eq_none := idOfName?_eq_none_iff built
  nameOf _ member := by rw [HandlerTable.nameOf, get?_rank built member]
  field registered := by
    refine bind_eq_ok.mpr ⟨_, slot_of_build built registered _, ?_⟩
    rw [get?_rank built (List.mem_of_getElem? registered)]
    rfl
  operation registered := by
    refine bind_eq_ok.mpr ⟨_, slot_of_build built registered _, ?_⟩
    rw [get?_rank built (List.mem_of_getElem? registered)]
    rfl
  closure registered := by
    refine bind_eq_ok.mpr ⟨_, slot_of_build built registered _, ?_⟩
    rw [get?_rank built (List.mem_of_getElem? registered)]
    rfl

/-! ## The order of registration -/

theorem ordered_eq_of_perm (distinct : Distinct handlers) (perm : handlers.Perm others) :
    ordered handlers = ordered others := by
  refine eq_of_nameOrder (distinct.perm (ordered_perm handlers).symm) ?_ (pairwise_ordered handlers)
    (pairwise_ordered others)
  exact ((ordered_perm handlers).trans perm).trans (ordered_perm others).symm

theorem rank_eq_of_perm (perm : handlers.Perm others) : rank handlers = rank others :=
  funext fun _ => perm.countP_eq _

/-- Handlers in another order make a table with the same handlers. -/
theorem exists_build_of_perm (perm : handlers.Perm others)
    (built : build registry selectionType? handlers = .ok table) :
    ∃ other, build registry selectionType? others = .ok other ∧ other.handlers = table.handlers := by
  obtain ⟨few, checked, distinct, rfl⟩ := build_eq_ok_iff.mp built
  refine ⟨_, build_eq_ok_iff.mpr ⟨perm.length_eq ▸ few, fun handler member => ?_, distinct.perm perm, rfl⟩,
    (ordered_eq_of_perm distinct perm).symm⟩
  exact checked handler (perm.mem_iff.mpr member)

/-- The order of registration leaves no trace in the numbers: in every order the handlers make a table or
none, and then the tables have the same size and fingerprint, number every name alike, by its rank, and
each of their handles leads to the handler that it was given out for. -/
theorem numbers_in_any_order (registry : Registry) (selectionType? : Option Ty)
    (perm : handlers.Perm others) :
    ((∃ table, build registry selectionType? handlers = .ok table) ↔
        ∃ table, build registry selectionType? others = .ok table) ∧
      ∀ {table other : HandlerTable W}, build registry selectionType? handlers = .ok table →
        build registry selectionType? others = .ok other →
          table.size = other.size ∧ table.fingerprint = other.fingerprint ∧
            (∀ name, table.idOfName? name = other.idOfName? name) ∧
            (∀ id, table.get? id = other.get? id) ∧ (∀ id, table.nameOf id = other.nameOf id) ∧
            rank handlers = rank others ∧ table.Numbers handlers ∧ other.Numbers others := by
  refine ⟨⟨?_, ?_⟩, fun {table other} built built' => ?_⟩
  · rintro ⟨table, built⟩
    obtain ⟨other, built', -⟩ := exists_build_of_perm perm built
    exact ⟨other, built'⟩
  · rintro ⟨table, built⟩
    obtain ⟨other, built', -⟩ := exists_build_of_perm perm.symm built
    exact ⟨other, built'⟩
  · obtain ⟨again, rebuilt, same⟩ := exists_build_of_perm perm built
    cases rebuilt.symm.trans built'
    have registries : other.registry = table.registry :=
      (registry_of_build built').trans (registry_of_build built).symm
    refine ⟨?_, ?_, fun name => ?_, fun id => ?_, fun id => ?_, rank_eq_of_perm perm,
      numbers_of_build built, numbers_of_build built'⟩
    · rw [size, size, same]
    · rw [fingerprint, fingerprint, digestBytes, digestBytes, same, registries]
    · rw [idOfName?, idOfName?, same]
    · rw [get?, get?, same]
    · rw [nameOf, nameOf, get?, get?, same]

end HandlerTable

/-! ## A gate and a roof -/

/-- A field of a world that keeps nothing. -/
def bareField (name : String) : FieldHandler Unit where
  name
  target := .unit
  value := .scalar .i32
  get _ _ _ _ := none
  set _ _ _ _ := pure ()

/-- The gate has the number 0 also where the roof is registered first, and there the second handle leads
to it. -/
theorem gate_before_roof :
    ∃ table other,
      HandlerTable.build .bare none [.field (bareField "gate"), .field (bareField "roof")] =
          .ok table ∧
        HandlerTable.build .bare none [.field (bareField "roof"), .field (bareField "gate")] =
          .ok other ∧
        table.fingerprint = other.fingerprint ∧ table.idOfName? "gate" = some 0 ∧
        other.idOfName? "gate" = some 0 ∧ table.field 0 = .ok (0, bareField "gate") ∧
        other.field 1 = .ok (0, bareField "gate") := by
  obtain ⟨taken, alike⟩ := HandlerTable.numbers_in_any_order .bare none
    (.swap (.field (bareField "roof")) (.field (bareField "gate")) [])
  obtain ⟨table, built⟩ : ∃ table, HandlerTable.build .bare none
      [.field (bareField "gate"), .field (bareField "roof")] = .ok table := ⟨_, rfl⟩
  obtain ⟨other, built'⟩ := taken.mp ⟨table, built⟩
  obtain ⟨-, fingerprint, ids, -, -, -, numbers, numbers'⟩ := alike built built'
  have id : table.idOfName? "gate" = some 0 := numbers.idOfName? _ List.mem_cons_self
  have first : [Handler.field (bareField "gate"), .field (bareField "roof")][0]? =
      some (.field (bareField "gate")) := rfl
  have second : [Handler.field (bareField "roof"), .field (bareField "gate")][1]? =
      some (.field (bareField "gate")) := rfl
  exact ⟨table, other, built, built', fingerprint, id, (ids "gate").symm.trans id, numbers.field first,
    numbers'.field second⟩

end Lockstep
