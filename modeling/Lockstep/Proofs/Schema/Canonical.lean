import Lockstep.Proofs.Format.Yields
import Lockstep.Proofs.Schema.Closed
import Lockstep.Proofs.Schema.Limits

/-! # What is read can be written

Readers take the same value from different bytes: every negative word stands for no entity, a reference
that is not known is read as nothing, and a nullable value may be announced and then left out. What they
come to can be written again, in no more bytes than were read, and these are read as the same value
(`canonical_of_decode`). So the bytes that a registry writes are the short form of all that it reads.
-/

namespace Lockstep

open Decoder

/-- A resolver knows an entity under the reference given, or not at all. -/
def Resolver.KnowsAsGiven (resolver : Resolver) : Prop :=
  ∀ scope type reference,
    resolver.entity scope type reference = none ∨ resolver.entity scope type reference = some reference

/-! ## Scalars -/

namespace ScalarKind

/-- A scalar that is read takes as many bytes as it was read from. -/
theorem yields_decode (kind : ScalarKind) : Yields kind.decode fun scalar size =>
    scalar.kind = kind ∧ scalar.blobLength ≤ maxBlobLength ∧
      ∃ bytes, scalar.encode = .ok bytes ∧ bytes.length = size := by
  have blob {blob : Bytes} {size : Nat} (held : blob.length ≤ maxBlobLength ∧ size = 4 + blob.length) :
      ∃ bytes, Bytes.ofBlob? blob = .ok bytes ∧ bytes.length = size := by
    have fits : blob.length < UInt32.size := Nat.lt_of_le_of_lt held.1 (by decide)
    refine ⟨_, if_pos fits, ?_⟩
    rw [List.length_append, Bytes.length_ofNat, held.2]
  cases kind with
  | bool =>
    exact (yields_bool.mono fun _ _ held => ⟨rfl, Nat.zero_le _, _, rfl, held.symm⟩).map Scalar.bool
  | u8 => exact (yields_uint8.mono fun _ _ held => ⟨rfl, Nat.zero_le _, _, rfl, held.symm⟩).map Scalar.u8
  | i8 => exact (yields_uint8.mono fun _ _ held => ⟨rfl, Nat.zero_le _, _, rfl, held.symm⟩).map _
  | u16 => exact (yields_uint16.mono fun _ _ held => ⟨rfl, Nat.zero_le _, _, rfl, held.symm⟩).map Scalar.u16
  | i16 => exact (yields_uint16.mono fun _ _ held => ⟨rfl, Nat.zero_le _, _, rfl, held.symm⟩).map _
  | u32 => exact (yields_uint32.mono fun _ _ held => ⟨rfl, Nat.zero_le _, _, rfl, held.symm⟩).map Scalar.u32
  | i32 => exact (yields_int32.mono fun _ _ held => ⟨rfl, Nat.zero_le _, _, rfl, held.symm⟩).map Scalar.i32
  | u64 => exact (yields_uint64.mono fun _ _ held => ⟨rfl, Nat.zero_le _, _, rfl, held.symm⟩).map Scalar.u64
  | i64 => exact (yields_uint64.mono fun _ _ held => ⟨rfl, Nat.zero_le _, _, rfl, held.symm⟩).map _
  | f32 => exact (yields_uint32.mono fun _ _ held => ⟨rfl, Nat.zero_le _, _, rfl, held.symm⟩).map _
  | f64 => exact (yields_uint64.mono fun _ _ held => ⟨rfl, Nat.zero_le _, _, rfl, held.symm⟩).map _
  | string => exact (yields_text.mono fun _ _ held => ⟨rfl, held.1, blob held⟩).map Scalar.string
  | bytes => exact (yields_blob.mono fun _ _ held => ⟨rfl, held.1, blob held⟩).map Scalar.bytes

/-- How many bytes a number takes in an integer kind. -/
def width : ScalarKind → Nat
  | u8 | i8 => 1
  | u16 | i16 => 2
  | u32 | i32 => 4
  | u64 | i64 => 8
  | bool | f32 | f64 | string | bytes => 0

theorem yields_decodeInt (kind : ScalarKind) : Yields kind.decodeInt fun _ size => size = kind.width := by
  cases kind with
  | u8 | i8 => exact yields_uint8.lift.bind fun _ _ held => .pure held
  | u16 | i16 => exact yields_uint16.lift.bind fun _ _ held => .pure held
  | u32 | i32 => exact yields_uint32.lift.bind fun _ _ held => .pure held
  | u64 | i64 => exact yields_uint64.lift.bind fun _ _ held => .pure held
  | bool | f32 | f64 | string | bytes => exact .throw _

theorem length_encode_ofInt? {kind : ScalarKind} {n : Int64} {scalar : Scalar} {bytes : Bytes}
    (fits : kind.ofInt? n = some scalar) (written : scalar.encodeValue = .ok bytes) :
    bytes.length = kind.width := by
  unfold ofInt? at fits
  split at fits
  next =>
    cases kind with
    | bool | f32 | f64 | string | bytes => cases fits
    | _ =>
      cases fits
      cases written
      rfl
  next => cases fits

end ScalarKind

namespace Registry

variable {registry : Registry} {resolver : Resolver} {scope : ScopeId} {levels : Nat} {type : Ty}
  {value : Value} {size : Nat}

/-! ## Writing what has been read -/

/-- Items that can be written one by one can be written together. -/
theorem WritesAll.encodeItems {items : List Value} {element : Ty} {bytes : Bytes}
    (written : registry.WritesAll items (items.map fun _ => element) bytes) (chunks : List Bytes) :
    ∃ result, registry.encodeItems items element chunks = .ok result ∧
      result.reverse.flatten = chunks.reverse.flatten ++ bytes := by
  induction items generalizing chunks bytes with
  | nil =>
    cases written
    exact ⟨chunks, by rw [Registry.encodeItems], (List.append_nil _).symm⟩
  | cons item items ih =>
    cases written with
    | @cons _ _ _ _ chunk _ first rest =>
      obtain ⟨result, others, same⟩ := ih rest (chunk :: chunks)
      rw [Registry.encodeItems]
      exact ⟨result, bind_eq_ok.mpr ⟨chunk, first, others⟩, by simpa using same⟩

/-- Likewise the parts of a record. -/
theorem WritesAll.encodeFields {values : List Value} {fields : List Field} {bytes : Bytes}
    (written : registry.WritesAll values (fields.map (·.type)) bytes) (chunks : List Bytes) :
    ∃ result, registry.encodeFields values fields chunks = .ok result ∧
      result.reverse.flatten = chunks.reverse.flatten ++ bytes := by
  induction values generalizing fields chunks bytes with
  | nil =>
    cases fields with
    | nil =>
      cases written
      have nothing : registry.encodeFields [] [] chunks = .ok chunks := by
        rw [Registry.encodeFields]
        intro _ _ _ _ impossible
        cases impossible
      exact ⟨chunks, nothing, (List.append_nil _).symm⟩
    | cons _ _ => cases written
  | cons value values ih =>
    cases fields with
    | nil => cases written
    | cons field fields =>
      cases written with
      | @cons _ _ _ _ chunk _ first rest =>
        obtain ⟨result, others, same⟩ := ih rest (chunk :: chunks)
        rw [Registry.encodeFields]
        exact ⟨result, bind_eq_ok.mpr ⟨chunk, first, others⟩, by simpa using same⟩

theorem WritesAll.length_eq {values : List Value} {types : List Ty} {bytes : Bytes}
    (written : registry.WritesAll values types bytes) : values.length = types.length := by
  induction written with
  | nil => rfl
  | cons _ _ ih => exact congrArg (· + 1) ih

theorem encodeValue_list {items : List Value} {element : Ty} {body : Bytes}
    (few : items.length ≤ 65535)
    (written : registry.WritesAll items (items.map fun _ => element) body) :
    registry.encodeValue (.list items) (.list element) = .ok (.ofNat 2 items.length ++ body) := by
  obtain ⟨chunks, parts, same⟩ := written.encodeItems []
  unfold encodeValue
  refine bind_eq_ok.mpr ⟨_, mapError_eq_ok.mpr (if_pos few), bind_eq_ok.mpr ⟨chunks, parts, ?_⟩⟩
  rw [same]
  rfl

theorem encodeValue_record {name : String} {fields : List Field} {values : List Value} {bytes : Bytes}
    (declared : registry.descriptor? name = some (.record fields))
    (written : registry.WritesAll values (fields.map (·.type)) bytes) :
    registry.encodeValue (.record name values) (.named name) = .ok bytes := by
  obtain ⟨chunks, parts, same⟩ := written.encodeFields []
  have count : values.length = fields.length := by rw [written.length_eq, List.length_map]
  unfold encodeValue
  simp only [Ty.encodeLayers, declared, if_true, count]
  refine bind_eq_ok.mpr ⟨chunks, parts, ?_⟩
  rw [same]
  rfl

theorem encodeValue_object {name concrete : String} {implementations : List String} {payload : Value}
    {body : Bytes} (declared : registry.descriptor? name = some (.interface implementations))
    (listed : concrete ∈ implementations)
    (written : registry.encodeValue payload (.named concrete) = .ok body) :
    ∃ index : UInt16, registry.encodeValue (.object concrete payload) (.named name) =
      .ok (.ofUInt16 index ++ body) := by
  obtain ⟨index, found⟩ : ∃ index, implementations.idxOf? concrete = some index := by
    refine Option.isSome_iff_exists.mp ?_
    rwa [List.isSome_idxOf?]
  refine ⟨.ofNat index, ?_⟩
  unfold encodeValue
  simp only [Ty.encodeLayers, declared, found]
  exact bind_eq_ok.mpr ⟨body, written, rfl⟩

/-- A value at a type that can be written in so many bytes, and that a reader of so many levels takes and
keeps as it is. -/
structure Canonical (registry : Registry) (resolver : Resolver) (scope : ScopeId) (levels : Nat)
    (type : Ty) (value : Value) (size : Nat) : Prop where
  written : ∃ bytes, registry.encodeValue value type = .ok bytes ∧ bytes.length ≤ size
  within : registry.Within levels type value
  stands : registry.Stands resolver scope value

/-- The same of several values. -/
structure CanonicalAll (registry : Registry) (resolver : Resolver) (scope : ScopeId) (levels : Nat)
    (types : List Ty) (values : List Value) (size : Nat) : Prop where
  written : ∃ bytes, registry.WritesAll values types bytes ∧ bytes.length ≤ size
  short : Value.longestBlob.longestBlobOf values ≤ maxBlobLength
  shallow : List.Forall₂ (fun value type => registry.nesting value type < levels) values types
  stands : Stands.AllStand registry resolver scope values

namespace CanonicalAll

theorem nil : registry.CanonicalAll resolver scope levels [] [] 0 where
  written := ⟨[], .nil, Nat.le_refl 0⟩
  short := Nat.zero_le _
  shallow := .nil
  stands := trivial

theorem cons {types : List Ty} {values : List Value} {more : Nat}
    (first : registry.Canonical resolver scope levels type value size)
    (rest : registry.CanonicalAll resolver scope levels types values more) :
    registry.CanonicalAll resolver scope levels (type :: types) (value :: values) (size + more) where
  written := by
    obtain ⟨bytes, written, short⟩ := first.written
    obtain ⟨others, writtenAll, shortAll⟩ := rest.written
    refine ⟨bytes ++ others, .cons written writtenAll, ?_⟩
    rw [List.length_append]
    exact Nat.add_le_add short shortAll
  short := Nat.max_le.mpr ⟨first.within.1, rest.short⟩
  shallow := .cons first.within.2 rest.shallow
  stands := ⟨first.stands, rest.stands⟩

theorem nestingItems_le {items : List Value} {element : Ty}
    (shallow : List.Forall₂ (fun value type => registry.nesting value type < levels) items
      (items.map fun _ => element)) : registry.nestingItems items element ≤ levels := by
  induction items with
  | nil => exact Nat.zero_le _
  | cons item items ih =>
    cases shallow with
    | cons first rest => exact Nat.max_le.mpr ⟨first, ih rest⟩

theorem nestingFields_le {values : List Value} {fields : List Field}
    (shallow : List.Forall₂ (fun value type => registry.nesting value type < levels) values
      (fields.map (·.type))) : registry.nestingFields values fields ≤ levels := by
  induction values generalizing fields with
  | nil =>
    rw [nestingFields]
    · exact Nat.zero_le _
    · intro _ _ _ _ impossible
      cases impossible
  | cons value values ih =>
    cases fields with
    | nil => cases shallow
    | cons field fields =>
      cases shallow with
      | cons first rest => exact Nat.max_le.mpr ⟨first, ih rest⟩

end CanonicalAll

namespace Canonical

/-- A value of a declared type that is neither a record nor an interface. -/
theorem of_leaf {name : String} {descriptor : Descriptor}
    (declared : registry.descriptor? name = some descriptor)
    (noRecord : ∀ fields, descriptor ≠ .record fields)
    (plain : ∀ others, descriptor ≠ .interface others)
    (written : ∃ bytes, registry.encodeValue value (.named name) = .ok bytes ∧ bytes.length ≤ size)
    (stands : registry.Stands resolver scope value) :
    registry.Canonical resolver scope (levels + 1) (.named name) value size where
  written := written
  within :=
    let ⟨_, written, _⟩ := written
    within_leaf declared noRecord plain written
  stands := stands

theorem list {items : List Value} {element : Ty} (few : items.length ≤ 65535)
    (parts : registry.CanonicalAll resolver scope levels (items.map fun _ => element) items size) :
    registry.Canonical resolver scope (levels + 1) (.list element) (.list items) (2 + size) where
  written := by
    obtain ⟨body, written, short⟩ := parts.written
    refine ⟨_, encodeValue_list few written, ?_⟩
    rw [List.length_append, Bytes.length_ofNat]
    exact Nat.add_le_add_left short 2
  within := by
    refine ⟨parts.short, ?_⟩
    simp only [nesting, Ty.layers, Ty.core, Nat.zero_add]
    exact Nat.lt_succ_of_le (CanonicalAll.nestingItems_le parts.shallow)
  stands := parts.stands

theorem record {name : String} {fields : List Field} {values : List Value}
    (declared : registry.descriptor? name = some (.record fields))
    (parts : registry.CanonicalAll resolver scope levels (fields.map (·.type)) values size) :
    registry.Canonical resolver scope (levels + 1) (.named name) (.record name values) size where
  written :=
    let ⟨bytes, written, short⟩ := parts.written
    ⟨bytes, encodeValue_record declared written, short⟩
  within := by
    refine ⟨parts.short, ?_⟩
    simp only [nesting, Ty.layers, Ty.core, declared, Nat.zero_add]
    exact Nat.lt_succ_of_le (CanonicalAll.nestingFields_le parts.shallow)
  stands := parts.stands

/-- Behind an interface a payload that is there becomes an object, one level up. -/
theorem object {name concrete : String} {implementations : List String}
    (declared : registry.descriptor? name = some (.interface implementations))
    (listed : concrete ∈ implementations)
    (payload : registry.Canonical resolver scope (levels - 1 + 1) (.named concrete) value size)
    (present : value.isNull = false) :
    registry.Canonical resolver scope (levels + 1) (.named name) (.object concrete value)
      (2 + size) where
  written := by
    obtain ⟨body, written, short⟩ := payload.written
    obtain ⟨index, written⟩ := encodeValue_object declared listed written
    refine ⟨_, written, ?_⟩
    rw [List.length_append, Bytes.ofUInt16, Bytes.length_ofNat]
    exact Nat.add_le_add_left short 2
  within := by
    refine ⟨payload.within.1, ?_⟩
    have shallow := payload.within.2
    simp only [nesting, Ty.layers, Nat.zero_add]
    split
    next => exact Nat.succ_pos _
    next level nested =>
      change level + 2 < levels + 1
      omega
  stands := ⟨present, payload.stands⟩

/-- No value where a value may be absent. -/
theorem null_interface {name : String} {implementations : List String}
    (declared : registry.descriptor? name = some (.interface implementations)) (enough : 2 ≤ size) :
    registry.Canonical resolver scope (levels + 1) (.named name) .null size where
  written := by
    refine ⟨.ofUInt16 0xffff, ?_, enough⟩
    unfold encodeValue
    simp only [Ty.encodeLayers, declared]
  within := ⟨Nat.zero_le _, Nat.succ_pos _⟩
  stands := trivial

theorem null_nullable (inner : Ty) (enough : 1 ≤ size) :
    registry.Canonical resolver scope (levels + 1) (.nullable inner) .null size where
  written := ⟨[1], encodeValue_null_nullable inner, enough⟩
  within := ⟨Nat.zero_le _, Nat.succ_pos _⟩
  stands := trivial

theorem nullable {inner : Ty} (below : registry.Canonical resolver scope levels inner value size) :
    registry.Canonical resolver scope (levels + 1) (.nullable inner) value (2 + size) := by
  cases absent : value.isNull with
  | true =>
    cases value with
    | null => exact null_nullable inner (by omega)
    | _ => cases absent
  | false =>
    obtain ⟨body, written, short⟩ := below.written
    refine ⟨⟨0 :: 1 :: body, ?_, ?_⟩, ⟨below.within.1, ?_⟩, below.stands⟩
    · rw [encodeValue_nullable absent, written]
      rfl
    · rw [List.length_cons, List.length_cons]
      omega
    · rw [nesting_nullable absent]
      exact Nat.succ_lt_succ below.within.2

end Canonical

/-! ## References -/

theorem encodeId_of_le (type : String) {id : UInt32} (small : id ≤ 0x7fffffff) :
    encodeId type id = .ok (.ofUInt32 id) := if_pos small

theorem encodeValue_reference {name : String} {category : RefCategory}
    (declared : registry.descriptor? name = some (.reference category)) :
    registry.encodeValue value (.named name) = category.encode name value := by
  unfold encodeValue
  simp only [Ty.encodeLayers, declared]

/-- An entity that is read can be written after its tag. -/
theorem yields_entity (type : String) (tag : UInt8) :
    Yields (EntityRef.decode tag) fun reference? size => ∀ reference ∈ reference?,
      ∃ bytes, reference.encode type = .ok bytes ∧ bytes.length = 1 + size := by
  unfold EntityRef.decode
  split
  · refine yields_id.lift.bind fun id? size held => .pure ?_
    obtain ⟨small, rfl⟩ := held
    intro reference same
    obtain ⟨id, there, rfl⟩ := Option.map_eq_some_iff.mp same
    refine ⟨0 :: Bytes.ofUInt32 id, ?_, rfl⟩
    rw [EntityRef.encode, encodeId_of_le type (small id there)]
    rfl
  · refine yields_id.lift.bind fun parent? size held => yields_id.lift.bind fun id? more held' => .pure ?_
    obtain ⟨small, rfl⟩ := held
    obtain ⟨small', rfl⟩ := held'
    intro reference same
    obtain ⟨parent, outer, same⟩ := Option.bind_eq_some_iff.mp same
    obtain ⟨id, inner, same⟩ := Option.bind_eq_some_iff.mp same
    cases same
    refine ⟨1 :: (Bytes.ofUInt32 parent ++ Bytes.ofUInt32 id), ?_, rfl⟩
    rw [EntityRef.encode, encodeId_of_le type (small parent outer), encodeId_of_le type (small' id inner)]
    rfl
  · refine yields_id.lift.bind fun owner? size held => yields_uint16.lift.bind fun slot width word =>
      yields_id.lift.bind fun id? more held' => .pure ?_
    obtain ⟨small, rfl⟩ := held
    obtain ⟨small', rfl⟩ := held'
    subst word
    intro reference same
    obtain ⟨owner, outer, same⟩ := Option.bind_eq_some_iff.mp same
    obtain ⟨id, inner, same⟩ := Option.bind_eq_some_iff.mp same
    cases same
    refine ⟨2 :: (Bytes.ofUInt32 owner ++ (Bytes.ofUInt16 slot ++ Bytes.ofUInt32 id)), ?_, rfl⟩
    rw [EntityRef.encode, encodeId_of_le type (small owner outer), encodeId_of_le type (small' id inner)]
    rfl
  · exact .throw _

/-- Nothing at all, at a type of references. -/
theorem Canonical.null_reference {name : String} {category : RefCategory}
    (declared : registry.descriptor? name = some (.reference category)) {bytes : Bytes}
    (written : category.encode name .null = .ok bytes) (enough : bytes.length ≤ size) :
    registry.Canonical resolver scope (levels + 1) (.named name) .null size :=
  .of_leaf declared (by simp) (by simp) ⟨bytes, (encodeValue_reference declared).trans written, enough⟩
    trivial

/-- What a resolver makes of an entity can be written if the entity can. -/
theorem Canonical.entity {name : String} {category : RefCategory}
    (declared : registry.descriptor? name = some (.reference category))
    (given : resolver.KnowsAsGiven) {reference : EntityRef} {bytes nothing : Bytes}
    (written : category.encode name (.entity name reference) = .ok bytes) (enough : bytes.length ≤ size)
    (absent : category.encode name .null = .ok nothing) (shorter : nothing.length ≤ size) :
    registry.Canonical resolver scope (levels + 1) (.named name)
      (RefCategory.entityValue name
        (resolver.entity (if category = .worldObject then .global else scope) name reference)) size := by
  rcases given (if category = .worldObject then .global else scope) name reference with unknown | known
  · rw [unknown]
    exact .null_reference declared absent shorter
  · rw [known]
    refine .of_leaf declared (by simp) (by simp)
      ⟨bytes, (encodeValue_reference declared).trans written, enough⟩ ?_
    rw [RefCategory.entityValue, Stands, RefCategory.entityScope_eq declared]
    exact known

/-- A reference that is read can be written. -/
theorem yields_reference {name : String} {category : RefCategory}
    (declared : registry.descriptor? name = some (.reference category))
    (given : resolver.KnowsAsGiven) :
    Yields (category.decode resolver scope name)
      (registry.Canonical resolver scope (levels + 1) (.named name)) := by
  cases category with
  | session =>
    refine yields_id.lift.bind fun id? size held => ?_
    obtain ⟨small, rfl⟩ := held
    have absent : registry.Canonical resolver scope (levels + 1) (.named name) .null 4 :=
      .null_reference declared rfl (Nat.le_refl 4)
    cases id? with
    | none => exact .pure absent
    | some id =>
      refine .pure ?_
      split
      next known =>
        refine .of_leaf declared (by simp) (by simp)
          ⟨Bytes.ofUInt32 id, (encodeValue_reference declared).trans ?_, Nat.le_refl 4⟩ known
        rw [RefCategory.encode, if_pos rfl, encodeId_of_le name (small id rfl)]
      next => exact absent
  | definition =>
    refine yields_uint16.lift.bind fun id size held => .pure ?_
    subst held
    have absent : registry.Canonical resolver scope (levels + 1) (.named name) .null 2 :=
      .null_reference declared rfl (Nat.le_refl 2)
    split
    next => exact absent
    next present =>
      split
      next known =>
        refine .of_leaf declared (by simp) (by simp)
          ⟨Bytes.ofUInt16 id, (encodeValue_reference declared).trans ?_, Nat.le_refl 2⟩ known
        rw [RefCategory.encode, if_pos rfl, if_neg present]
      next => exact absent
  | spawned =>
    refine yields_id.lift.bind fun id? size held => ?_
    obtain ⟨small, rfl⟩ := held
    cases id? with
    | none => exact .pure (.null_reference declared rfl (Nat.le_refl 4))
    | some id =>
      have written : RefCategory.spawned.encode name (.entity name (.spawned id)) =
          .ok (.ofUInt32 id) := by
        rw [RefCategory.encode, if_pos rfl, encodeId_of_le name (small id rfl)]
      exact .pure (.entity declared given written (Nat.le_refl 4) rfl (Nat.le_refl 4))
  | worldObject =>
    refine yields_id.lift.bind fun id? size held => ?_
    obtain ⟨small, rfl⟩ := held
    cases id? with
    | none => exact .pure (.null_reference declared rfl (Nat.le_refl 4))
    | some id =>
      have written : RefCategory.worldObject.encode name (.entity name (.spawned id)) =
          .ok (.ofUInt32 id) := by
        rw [RefCategory.encode, if_pos rfl, encodeId_of_le name (small id rfl)]
      exact .pure (.entity declared given written (Nat.le_refl 4) rfl (Nat.le_refl 4))
  | thing =>
    refine yields_uint8.lift.bind fun tag size held => ?_
    subst held
    split
    next => exact .pure (.null_reference declared rfl (Nat.le_refl 1))
    next present =>
      refine (yields_entity name tag).bind fun reference? size held => ?_
      have absent : registry.Canonical resolver scope (levels + 1) (.named name) .null (1 + size) :=
        .null_reference declared rfl (Nat.le_add_right 1 size)
      cases reference? with
      | none => exact .pure absent
      | some reference =>
        obtain ⟨bytes, written, length⟩ := held reference rfl
        have written : RefCategory.thing.encode name (.entity name reference) = .ok bytes := by
          rw [RefCategory.encode, if_pos rfl, written]
        exact .pure (.entity declared given written (Nat.le_of_eq length) rfl (Nat.le_add_right 1 size))

/-! ## Declared types -/

/-- The parts of a record are read in front of those before them, the latest first. -/
theorem yields_fields {parts : ValueDecoder}
    (below : ∀ type, Yields (parts type) (registry.Canonical resolver scope levels type))
    (fields : List Field) (before : List Value) :
    Yields (fields.foldlM (fun values field => do
        let value ← parts field.type
        return value :: values) before) fun values size =>
      ∃ latest, values = latest.reverse ++ before ∧
        registry.CanonicalAll resolver scope levels (fields.map (·.type)) latest size := by
  induction fields generalizing before with
  | nil => exact .pure ⟨[], rfl, .nil⟩
  | cons field fields ih =>
    rw [List.foldlM_cons]
    have first : Yields (do
        let value ← parts field.type
        return value :: before) fun values size =>
          ∃ value, values = value :: before ∧
            registry.Canonical resolver scope levels field.type value size :=
      (below field.type).bind fun value size held => .pure ⟨value, rfl, held⟩
    refine first.bind fun values size held => ?_
    obtain ⟨value, rfl, held⟩ := held
    refine (ih (value :: before)).mono ?_
    rintro values more ⟨latest, rfl, held'⟩
    refine ⟨value :: latest, ?_, .cons held held'⟩
    rw [List.reverse_cons, List.append_assoc, List.singleton_append]

/-- A value of a declared type that is no interface can be written if its parts can. -/
theorem yields_decodePlain (closed : registry.Closed) (given : resolver.KnowsAsGiven)
    {parts : ValueDecoder}
    (below : ∀ type, Yields (parts type) (registry.Canonical resolver scope levels type)) {name : String}
    {descriptor : Descriptor} (declared : registry.descriptor? name = some descriptor) :
    Yields (decodePlain resolver scope parts name descriptor)
      (registry.Canonical resolver scope (levels + 1) (.named name)) := by
  cases descriptor with
  | enumeration repr discriminants =>
    refine repr.yields_decodeInt.bind fun discriminant size held => ?_
    subst held
    split
    next listed =>
      obtain ⟨scalar, bytes, fits, encoded, written⟩ :=
        closed.exists_encode_discriminant declared (List.contains_iff_mem.mp listed)
      exact .pure (.of_leaf declared (by simp) (by simp)
        ⟨bytes, written, Nat.le_of_eq (ScalarKind.length_encode_ofInt? fits encoded)⟩ trivial)
    next => exact .throw _
  | record fields =>
    refine (yields_fields below fields []).bind fun values size held => .pure ?_
    obtain ⟨latest, rfl, parts⟩ := held
    rw [List.append_nil, List.reverse_reverse]
    exact .record declared parts
  | reference category => exact yields_reference declared given
  | scope =>
    refine yields_int32.lift.bind fun raw size held => ?_
    subst held
    have absent : registry.Canonical resolver scope (levels + 1) (.named name) .null 4 := by
      refine .of_leaf declared (by simp) (by simp) ⟨Bytes.ofInt32 Int32.minValue, ?_, Nat.le_refl 4⟩ trivial
      unfold encodeValue
      simp only [Ty.encodeLayers, declared]
    split
    next => exact .pure absent
    next =>
      split
      next named read =>
        refine .pure ?_
        split
        next known =>
          refine .of_leaf declared (by simp) (by simp) ⟨Bytes.ofInt32 named.toWire, ?_, Nat.le_refl 4⟩ known
          unfold encodeValue
          simp only [Ty.encodeLayers, declared, (ScopeId.ofWire?_eq_some read).1, if_true]
        next => exact absent
      next => exact .throw _
  | interface implementations => exact .throw _

/-! ## All types -/

/-- Behind the index of an implementation stands a value that can be written, or nothing. -/
theorem yields_decodeNamed (closed : registry.Closed) (given : resolver.KnowsAsGiven)
    {parts deeper : ValueDecoder}
    (below : ∀ type, Yields (parts type) (registry.Canonical resolver scope levels type))
    (below' : ∀ type, Yields (deeper type) (registry.Canonical resolver scope (levels - 1) type))
    (name : String) :
    Yields (registry.decodeNamed resolver scope parts deeper name)
      (registry.Canonical resolver scope (levels + 1) (.named name)) := by
  unfold decodeNamed
  split
  next => exact .throw _
  next implementations declared =>
    refine yields_uint16.lift.bind fun index size held => ?_
    subst held
    split
    next => exact .pure (.null_interface declared (Nat.le_refl 2))
    next =>
      split
      next => exact .throw _
      next concrete listed =>
        split
        next => exact .throw _
        next descriptor there =>
          refine (yields_decodePlain closed given below' there).bind fun payload size held => .pure ?_
          cases absent : payload.isNull with
          | true => exact .null_interface declared (by omega)
          | false => exact .object declared (List.mem_of_getElem? listed) held absent
  next descriptor _ declared => exact yields_decodePlain closed given below declared

theorem yields_decodeLevel (closed : registry.Closed) (given : resolver.KnowsAsGiven)
    {parts deeper : ValueDecoder}
    (below : ∀ type, Yields (parts type) (registry.Canonical resolver scope levels type))
    (below' : ∀ type, Yields (deeper type) (registry.Canonical resolver scope (levels - 1) type))
    (type : Ty) :
    Yields (registry.decodeLevel resolver scope parts deeper type)
      (registry.Canonical resolver scope (levels + 1) type) := by
  cases type with
  | unit =>
    refine .pure ⟨⟨[], ?_, Nat.le_refl 0⟩, ⟨Nat.zero_le _, Nat.succ_pos _⟩, trivial⟩
    unfold encodeValue
    rfl
  | scalar kind =>
    refine kind.yields_decode.lift.bind fun scalar size held => .pure ?_
    obtain ⟨rfl, short, bytes, encoded, length⟩ := held
    refine ⟨⟨bytes, ?_, Nat.le_of_eq length⟩, ⟨short, Nat.succ_pos _⟩, trivial⟩
    unfold encodeValue
    simp only [Ty.encodeLayers, if_true, Scalar.encodeValue, encoded]
    rfl
  | list element =>
    refine yields_count.lift.bind fun count size held => ?_
    obtain ⟨few, rfl⟩ := held
    have items := (below element).replicate
      (fun values => registry.CanonicalAll resolver scope levels (values.map fun _ => element) values) .nil
      (fun _ _ _ _ => .cons) count
    refine items.bind fun values size held => .pure ?_
    obtain ⟨rfl, parts⟩ := held
    exact .list few parts
  | nullable inner =>
    refine yields_bool.lift.bind fun absent size held => ?_
    subst held
    split
    next => exact .pure (.null_nullable inner (Nat.le_refl 1))
    next =>
      refine yields_bool.lift.bind fun present size held => ?_
      subst held
      split
      next =>
        refine (below inner).mono fun value size held => ?_
        rw [← Nat.add_assoc]
        exact held.nullable
      next => exact .pure (.null_nullable inner (by decide))
  | named name => exact yields_decodeNamed closed given below below' name

/-- Whatever a reader comes to can be written. -/
theorem yields_decodeWithin (closed : registry.Closed) (given : resolver.KnowsAsGiven) (levels : Nat)
    (type : Ty) :
    Yields (registry.decodeWithin resolver scope levels type)
      (registry.Canonical resolver scope levels type) := by
  -- a level is read with the readers of the two levels below it
  induction levels using Nat.strong_induction_on generalizing type with
  | _ levels ih =>
    cases levels with
    | zero => exact .throw _
    | succ levels =>
      rw [decodeWithin_succ]
      exact yields_decodeLevel closed given (ih levels (Nat.lt_succ_self levels))
        (ih (levels - 1) (Nat.lt_succ_of_le (Nat.sub_le levels 1))) type

/-- What is read can be written in no more bytes than it was read from, and these are read as the same
value, whatever follows them. -/
theorem canonical_of_decode {declarations : List Declaration} (built : build declarations = .ok registry)
    (given : resolver.KnowsAsGiven) {context : WireContext} {input rest : Bytes}
    (read : registry.decode resolver context type input = .ok value rest) :
    ∃ taken bytes, input = taken ++ rest ∧ registry.encode type value = .ok bytes ∧
      bytes.length ≤ taken.length ∧
      ∀ suffix, registry.decode resolver context type (bytes ++ suffix) = .ok value suffix := by
  have closed := closed_of_build built
  obtain ⟨taken, same, canonical⟩ := yields_decodeWithin closed given _ type read
  obtain ⟨bytes, written, shorter⟩ := canonical.written
  refine ⟨taken, bytes, same, written, shorter, ?_⟩
  have reads : Reads (registry.decode resolver context type) bytes
      (registry.resolve resolver context.lookupScope value) :=
    (readsBack closed.toSound value).1 written canonical.within.1 canonical.within.2
  rwa [resolve_eq_self canonical.stands] at reads

/-- An order whose worker is announced and left out is written without the announcement. -/
theorem order_without_worker :
    taskRegistry.decode .noEntities (.ofScope (.map 1)) (.named "Task")
        [0, 0, 2, 0, 0, 2, 0, 244, 1, 3, 0, 7] = .ok (taskFor .null) [7] ∧
      ∃ bytes, taskRegistry.encode (.named "Task") (taskFor .null) = .ok bytes ∧ bytes.length ≤ 11 ∧
        taskRegistry.decode .noEntities (.ofScope (.map 1)) (.named "Task") bytes =
          .ok (taskFor .null) [] := by
  have built : build taskTypes = .ok taskRegistry := by rfl
  have given : Resolver.noEntities.KnowsAsGiven := fun _ _ _ => .inl rfl
  have read : taskRegistry.decode .noEntities (.ofScope (.map 1)) (.named "Task")
      ([0, 0, 2, 0, 0, 2, 0, 244, 1, 3, 0] ++ [7]) = .ok (taskFor .null) [7] := by rfl
  obtain ⟨taken, bytes, same, written, shorter, back⟩ := canonical_of_decode built given read
  rw [← List.append_cancel_right same] at shorter
  exact ⟨read, bytes, written, shorter, List.append_nil bytes ▸ back []⟩

end Registry

end Lockstep
