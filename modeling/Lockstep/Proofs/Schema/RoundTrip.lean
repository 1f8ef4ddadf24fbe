import Lockstep.Proofs.Schema.Parts
import Lockstep.Proofs.Schema.Reference
import Lockstep.Proofs.Schema.Registry

/-! # Reading values back

Whatever a registry writes for a value, it reads back as what the resolver makes of the value, and
it leaves the bytes that follow. The induction is on the value. A value of a declared type that is
no interface is read alike by itself and behind an interface, but with its parts on different
levels, so both readings are carried along.
-/

namespace Lockstep

open Decoder

namespace Registry

variable (registry : Registry) (resolver : Resolver) (scope : ScopeId)

/-- Wherever a value can be written, it is read back by a reader with enough levels. -/
def ReadsBack (value : Value) : Prop :=
  ∀ ⦃type : Ty⦄ ⦃bytes : Bytes⦄ ⦃levels : Nat⦄, registry.encodeValue value type = .ok bytes →
    value.longestBlob ≤ maxBlobLength → registry.nesting value type < levels →
      Reads (registry.decodeWithin resolver scope levels type) bytes
        (registry.resolve resolver scope value)

/-- Written at a declared type that is no interface, a value is read back if its parts have enough
levels. -/
def ReadsBackPlain (value : Value) : Prop :=
  ∀ ⦃name : String⦄ ⦃descriptor : Descriptor⦄ ⦃bytes : Bytes⦄ ⦃levels : Nat⦄,
    registry.descriptor? name = some descriptor → (∀ others, descriptor ≠ .interface others) →
      registry.encodeValue value (.named name) = .ok bytes → value.longestBlob ≤ maxBlobLength →
        registry.nesting value (.named name) ≤ levels →
          Reads (decodePlain resolver scope
            (registry.decodeWithin resolver scope levels) name descriptor) bytes
            (registry.resolve resolver scope value)

variable {registry : Registry} {resolver : Resolver} {scope : ScopeId} {value : Value}
  {type : Ty} {bytes : Bytes} {levels : Nat}

/-- A reader of some levels reads one of them, and the others read what lies below. -/
theorem decodeWithin_succ (levels : Nat) :
    registry.decodeWithin resolver scope (levels + 1) =
      registry.decodeLevel resolver scope (registry.decodeWithin resolver scope levels)
        (registry.decodeWithin resolver scope (levels - 1)) := by
  cases levels with
  | zero => rfl
  | succ levels => rfl

theorem decodeWithin_named (levels : Nat) (name : String) :
    registry.decodeWithin resolver scope (levels + 1) (.named name) =
      registry.decodeNamed resolver scope (registry.decodeWithin resolver scope levels)
        (registry.decodeWithin resolver scope (levels - 1)) name := by
  rw [decodeWithin_succ]
  rfl

/-! ## Nullable layers -/

theorem nesting_nullable (present : value.isNull = false) (inner : Ty) :
    registry.nesting value (.nullable inner) = registry.nesting value inner + 1 := by
  cases value <;> simp only [nesting, Ty.layers, Ty.core] <;> first | omega | cases present

theorem reads_present {inner : Ty} {result : Value}
    (below : Reads (registry.decodeWithin resolver scope levels inner) bytes result) :
    Reads (registry.decodeWithin resolver scope (levels + 1) (.nullable inner))
      (0 :: 1 :: bytes) result := by
  rw [decodeWithin_succ]
  exact (reads_bool false).lift.bind ((reads_bool true).lift.bind below)

/-! ## Several values -/

/-- Items are read in front of those before them, the latest first. -/
theorem reads_items {element : Ty} {items : List Value}
    (each : ∀ item ∈ items, registry.ReadsBack resolver scope item)
    (short : Value.longestBlob.longestBlobOf items ≤ maxBlobLength)
    (shallow : registry.nestingItems items element ≤ levels) (before : List Value)
    (written : registry.WritesAll items (items.map fun _ => element) bytes) :
    Reads (repeatOnto
      (registry.decodeWithin resolver scope levels element) items.length before) bytes
      ((resolve.resolveAll registry resolver scope items).reverse ++ before) := by
  induction items generalizing before bytes with
  | nil =>
    cases written
    exact .pure before
  | cons item items ih =>
    cases written with
    | cons first rest =>
      obtain ⟨this, others⟩ := Nat.max_le.mp short
      rw [nestingItems] at shallow
      obtain ⟨level, below⟩ := Nat.max_le.mp shallow
      have head := each item List.mem_cons_self first this level
      have tail := ih (fun other member => each other (List.mem_cons_of_mem _ member)) others below
        (registry.resolve resolver scope item :: before) rest
      rw [resolve.resolveAll, List.reverse_cons, List.append_assoc]
      exact head.bind tail

/-- The parts of a record are read in front of those before them, the latest first. -/
theorem reads_fields {values : List Value} {fields : List Field}
    (each : ∀ part ∈ values, registry.ReadsBack resolver scope part)
    (short : Value.longestBlob.longestBlobOf values ≤ maxBlobLength)
    (shallow : registry.nestingFields values fields ≤ levels) (before : List Value)
    (written : registry.WritesAll values (fields.map (·.type)) bytes) :
    Reads (fields.foldlM (fun values field => do
        let value ← registry.decodeWithin resolver scope levels field.type
        return value :: values) before) bytes
      ((resolve.resolveAll registry resolver scope values).reverse ++ before) := by
  induction values generalizing fields before bytes with
  | nil =>
    cases fields with
    | nil =>
      cases written
      exact .pure before
    | cons _ _ => cases written
  | cons value values ih =>
    cases fields with
    | nil => cases written
    | cons field fields =>
      cases written with
      | cons first rest =>
        obtain ⟨this, others⟩ := Nat.max_le.mp short
        rw [nestingFields] at shallow
        obtain ⟨level, below⟩ := Nat.max_le.mp shallow
        have head := each value List.mem_cons_self first this level
        have part : Reads (do
            let value ← registry.decodeWithin resolver scope levels field.type
            return value :: before) _ (registry.resolve resolver scope value :: before) :=
          head.bind_last (.pure _)
        have tail :=
          ih (fun other member => each other (List.mem_cons_of_mem _ member)) others below
          (registry.resolve resolver scope value :: before) rest
        rw [resolve.resolveAll, List.reverse_cons, List.append_assoc, List.foldlM_cons]
        exact part.bind tail

/-! ## Declared types -/

theorem plain_enumeration {name : String} {repr : ScalarKind} {discriminants : List Int64}
    (declared : registry.descriptor? name = some (.enumeration repr discriminants))
    (written : registry.encodeValue value (.named name) = .ok bytes) :
    Reads (decodePlain resolver scope (registry.decodeWithin resolver scope levels) name
      (.enumeration repr discriminants))
      bytes (registry.resolve resolver scope value) := by
  unfold encodeValue at written
  simp only [Ty.encodeLayers, declared] at written
  cases value with
  | enumeration actual discriminant =>
    obtain ⟨rfl, written⟩ := guard_eq_ok.mp written
    obtain ⟨listed, written⟩ := guard_eq_ok.mp written
    split at written
    next scalar fits =>
      apply (ScalarKind.reads_discriminant fits written).bind_last
      rw [if_pos listed]
      exact .pure _
    next => cases written
  | _ => cases written

theorem plain_record {name : String} {fields : List Field}
    (each : ∀ part ∈ value.parts, registry.ReadsBack resolver scope part)
    (declared : registry.descriptor? name = some (.record fields))
    (written : registry.encodeValue value (.named name) = .ok bytes)
    (short : value.longestBlob ≤ maxBlobLength)
    (shallow : registry.nesting value (.named name) ≤ levels) :
    Reads (decodePlain resolver scope (registry.decodeWithin resolver scope levels) name
      (.record fields)) bytes
      (registry.resolve resolver scope value) := by
  obtain ⟨values, rfl, _, parts⟩ := encodeValue_record_eq_ok declared written
  simp only [nesting, Ty.layers, Ty.core, declared, Nat.zero_add] at shallow
  apply (reads_fields each short shallow [] parts).bind_last
  rw [List.append_nil, List.reverse_reverse]
  exact .pure _

theorem plain_scope {name : String} (declared : registry.descriptor? name = some .scope)
    (written : registry.encodeValue value (.named name) = .ok bytes) :
    Reads (decodePlain resolver scope
      (registry.decodeWithin resolver scope levels) name .scope) bytes
      (registry.resolve resolver scope value) := by
  unfold encodeValue at written
  simp only [Ty.encodeLayers, declared] at written
  cases value with
  | null =>
    cases written
    exact (reads_int32 Int32.minValue).lift.bind_last (.pure _)
  | scope named =>
    obtain ⟨exact, written⟩ := guard_eq_ok.mp written
    cases written
    apply (reads_int32 named.toWire).lift.bind_last
    rw [if_neg (ScopeId.toWire_ne_minValue exact), ScopeId.ofWire?_toWire exact]
    exact .pure _
  | _ => cases written

/-- A value of a declared type that is no interface is read back if its parts are. -/
theorem readsBackPlain_of_parts
    (each : ∀ part ∈ value.parts, registry.ReadsBack resolver scope part) :
    registry.ReadsBackPlain resolver scope value := by
  intro name descriptor bytes levels declared plain written short shallow
  cases descriptor with
  | enumeration repr discriminants => exact plain_enumeration declared written
  | record fields => exact plain_record each declared written short shallow
  | reference category =>
    unfold encodeValue at written
    simp only [Ty.encodeLayers, declared] at written
    exact RefCategory.reads declared written
  | interface implementations => exact absurd rfl (plain implementations)
  | scope => exact plain_scope declared written

/-! ## All types -/

theorem reads_list {element : Ty}
    (each : ∀ part ∈ value.parts, registry.ReadsBack resolver scope part)
    (written : registry.encodeValue value (.list element) = .ok bytes)
    (short : value.longestBlob ≤ maxBlobLength)
    (shallow : registry.nesting value (.list element) ≤ levels) :
    Reads (registry.decodeWithin resolver scope (levels + 1) (.list element)) bytes
      (registry.resolve resolver scope value) := by
  obtain ⟨items, count, body, rfl, counted, parts, rfl⟩ := encodeValue_list_eq_ok written
  simp only [nesting, Ty.layers, Ty.core, Nat.zero_add] at shallow
  rw [decodeWithin_succ]
  apply (reads_count counted).lift.bind
  apply ((reads_items each short shallow [] parts).map List.reverse).bind_last
  rw [List.append_nil, List.reverse_reverse]
  exact .pure _

/-- Behind an interface the index of the implementation stands in front of the value itself. -/
theorem reads_interface {name : String} {implementations : List String} (sound : registry.Sound)
    (each : ∀ part ∈ value.parts, registry.ReadsBackPlain resolver scope part)
    (declared : registry.descriptor? name = some (.interface implementations))
    (written : registry.encodeValue value (.named name) = .ok bytes)
    (short : value.longestBlob ≤ maxBlobLength)
    (shallow : registry.nesting value (.named name) ≤ levels) :
    Reads (registry.decodeWithin resolver scope (levels + 1) (.named name)) bytes
      (registry.resolve resolver scope value) := by
  rw [decodeWithin_named, decodeNamed, declared]
  rcases encodeValue_interface_eq_ok declared written
    with ⟨rfl, rfl⟩ | ⟨concrete, payload, index, body, rfl, listed, inner, rfl⟩
  · exact (reads_uint16 0xffff).lift.bind_last (.pure _)
  · obtain ⟨number, apart⟩ := sound.index_spec declared listed
    obtain ⟨descriptor, there, plain⟩ := sound.concrete declared (List.mem_of_getElem? listed)
    have below : registry.nesting payload (.named concrete) ≤ levels - 1 := by
      simp only [nesting, Ty.layers, Nat.zero_add] at shallow
      split at shallow
      next none => omega
      next level some =>
        have deep : level + 2 ≤ levels := shallow
        omega
    have reads := each payload (List.mem_singleton_self _) there plain inner short below
    apply (reads_uint16 _).lift.bind
    rw [if_neg apart, number, listed]
    simp only [there]
    exact reads.bind_last (.pure _)

/-- A value is read back at every type if its parts are. -/
theorem readsBack_of_parts (sound : registry.Sound)
    (each : ∀ part ∈ value.parts, registry.ReadsBack resolver scope part)
    (plain : ∀ part ∈ value.parts, registry.ReadsBackPlain resolver scope part) :
    registry.ReadsBack resolver scope value := by
  intro type bytes levels written short shallow
  obtain ⟨level, rfl⟩ : ∃ level, levels = level + 1 := ⟨levels - 1, by omega⟩
  have shallow : registry.nesting value type ≤ level := Nat.lt_succ_iff.mp shallow
  induction type generalizing bytes level with
  | unit =>
    obtain ⟨rfl, rfl⟩ := encodeValue_unit_eq_ok written
    rw [decodeWithin_succ]
    exact .pure _
  | scalar kind =>
    obtain ⟨scalar, rfl, rfl, encoded⟩ := encodeValue_scalar_eq_ok written
    rw [decodeWithin_succ]
    exact (Scalar.reads encoded short).lift.bind_last (.pure _)
  | list element _ => exact reads_list each written short shallow
  | nullable inner ih =>
    cases absent : value.isNull with
    | true =>
      cases value with
      | null =>
        rw [encodeValue_null_nullable] at written
        cases written
        rw [decodeWithin_succ]
        exact (reads_bool true).lift.bind_last (.pure _)
      | _ => cases absent
    | false =>
      rw [encodeValue_nullable absent] at written
      obtain ⟨rest, inner, flat⟩ := bind_eq_ok.mp written
      cases flat
      rw [nesting_nullable absent] at shallow
      obtain ⟨below, rfl⟩ : ∃ below, level = below + 1 := ⟨level - 1, by omega⟩
      exact reads_present (ih inner below (by omega) (by omega))
  | named name =>
    cases declared : registry.descriptor? name with
    | none =>
      rw [encodeValue_undeclared declared] at written
      cases written
    | some descriptor =>
      cases descriptor with
      | interface implementations =>
          exact reads_interface sound plain declared written short shallow
      | _ =>
        have reads :=
          readsBackPlain_of_parts each declared
            (by intro _ impossible; cases impossible) written short shallow
        rw [decodeWithin_named, decodeNamed, declared]
        exact reads

theorem readsBack (sound : registry.Sound) (value : Value) :
    registry.ReadsBack resolver scope value ∧ registry.ReadsBackPlain resolver scope value := by
  induction value using Value.induct with
  | step value ih =>
    have each := fun part member => (ih part member).1
    exact ⟨readsBack_of_parts sound each fun part member => (ih part member).2,
      readsBackPlain_of_parts each⟩

/-- Reading what was written gives the value back as the resolver knows it, and leaves what
follows. -/
theorem decode_encode_eq_resolve {declarations : List Declaration}
    (built : build declarations = .ok registry) (written : registry.encode type value = .ok bytes)
    (short : value.longestBlob ≤ maxBlobLength) (shallow : registry.nesting value type ≤ maxDepth)
    (resolver : Resolver) (context : WireContext) (suffix : Bytes) :
    registry.decode resolver context type (bytes ++ suffix) =
        .ok (registry.resolve resolver context.lookupScope value) suffix ∧
      (registry.Stands resolver context.lookupScope value →
        registry.decode resolver context type (bytes ++ suffix) = .ok value suffix) := by
  have reads : registry.decode resolver context type (bytes ++ suffix) =
      .ok (registry.resolve resolver context.lookupScope value) suffix :=
    (readsBack (sound_of_build built) value).1 written short (Nat.lt_succ_of_le shallow) suffix
  refine ⟨reads, ?_⟩
  intro stands
  rw [reads, resolve_eq_self stands]

/-! ## An order behind an interface -/

/-- Orders are tasks: how urgent, for whom, and how many of what. -/
def taskTypes : List Declaration :=
  [.interface "Task", .implementation "Task" "Order", .enumeration "Urgency" .u8 [0, 1, 2],
    .reference "Worker" [.thing],
    .record "Order" [⟨"urgency", .named "Urgency"⟩, ⟨"worker", .nullable (.named "Worker")⟩,
      ⟨"amounts", .list (.scalar .u16)⟩]]

/-- An order for this worker. -/
def taskFor (worker : Value) : Value :=
  .object "Order" (.record "Order" [.enumeration "Urgency" 2, worker,
    .list [.scalar (.u16 500), .scalar (.u16 3)]])

def taskRegistry : Registry := (build taskTypes).toOption.get (by decide +kernel)

/-- The order comes back whole where its worker is known, and without the worker elsewhere. -/
theorem decode_encode_task :
    ∃ bytes,
      taskRegistry.encode (.named "Task") (taskFor (.entity "Worker" (.nested 3 9))) = .ok bytes ∧
      taskRegistry.decode .everything (.ofScope (.map 1)) (.named "Task") (bytes ++ [7]) =
        .ok (taskFor (.entity "Worker" (.nested 3 9))) [7] ∧
      taskRegistry.decode .noEntities (.ofScope (.map 1)) (.named "Task") (bytes ++ [7]) =
        .ok (taskFor .null) [7] := by
  have built : build taskTypes = .ok taskRegistry := by rfl
  have written : taskRegistry.encode (.named "Task") (taskFor (.entity "Worker" (.nested 3 9))) =
      .ok [0, 0, 2, 0, 1, 1, 3, 0, 0, 0, 9, 0, 0, 0, 2, 0, 244, 1, 3, 0] := by decide +kernel
  have short : (taskFor (.entity "Worker" (.nested 3 9))).longestBlob ≤ maxBlobLength := by decide
  have shallow : taskRegistry.nesting (taskFor (.entity "Worker" (.nested 3 9))) (.named "Task") ≤
      maxDepth := by
    decide +kernel
  have known :=
    decode_encode_eq_resolve built written short shallow .everything (.ofScope (.map 1)) [7]
  have unknown :=
    decode_encode_eq_resolve built written short shallow .noEntities (.ofScope (.map 1)) [7]
  exact ⟨_, written, known.1, unknown.1⟩

end Registry

end Lockstep
