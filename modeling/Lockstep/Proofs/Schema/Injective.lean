import Lockstep.Proofs.Schema.RoundTrip

/-! # Different values are written differently

At one type no two values are written alike, and none is written as the beginning of another. Most
of this follows from reading: what is read from the same bytes is the same. Texts and byte strings
longer than a reader takes are told apart by the lengths in front of them.
-/

namespace Lockstep

open Decoder

/-- What is read from the same bytes is the same. -/
theorem Decoder.Reads.separate {ε α : Type} {decoder : Decoder ε α}
    {bytes bytes' rest rest' : Bytes} {value other : α} (first : Reads decoder bytes value)
    (second : Reads decoder bytes' other) (same : bytes ++ rest = bytes' ++ rest') :
    value = other ∧ rest = rest' := by
  have left := first rest
  rw [same, second rest'] at left
  cases left
  exact ⟨rfl, rfl⟩

theorem Bytes.separate_blob {blob other bytes bytes' rest rest' : Bytes}
    (first : ofBlob? blob = .ok bytes) (second : ofBlob? other = .ok bytes')
    (same : bytes ++ rest = bytes' ++ rest') : blob = other ∧ rest = rest' := by
  obtain ⟨fits, first⟩ := guard_eq_ok.mp first
  obtain ⟨fits', second⟩ := guard_eq_ok.mp second
  cases first
  cases second
  rw [List.append_assoc, List.append_assoc] at same
  obtain ⟨lengths, bodies⟩ := (reads_nat fits).separate (reads_nat fits') same
  exact List.append_inj bodies lengths

theorem Scalar.separate {scalar other : Scalar} {bytes bytes' rest rest' : Bytes}
    (kinds : scalar.kind = other.kind) (first : scalar.encode = .ok bytes)
    (second : other.encode = .ok bytes') (same : bytes ++ rest = bytes' ++ rest') :
    scalar = other ∧ rest = rest' := by
  by_cases short : scalar.blobLength = 0 ∧ other.blobLength = 0
  · have left := Scalar.reads first (short.1 ▸ Nat.zero_le _)
    have right := Scalar.reads second (short.2 ▸ Nat.zero_le _)
    exact left.separate (kinds ▸ right) same
  · cases scalar with
    | string text =>
      cases other with
      | string text' =>
        obtain ⟨texts, rests⟩ := Bytes.separate_blob first second same
        have read := congrArg Bytes.toString? texts
        rw [Bytes.toString?_ofString, Bytes.toString?_ofString] at read
        exact ⟨congrArg _ (Option.some.inj read), rests⟩
      | _ => cases kinds
    | bytes blob =>
      cases other with
      | bytes blob' =>
        obtain ⟨blobs, rests⟩ := Bytes.separate_blob first second same
        exact ⟨congrArg _ blobs, rests⟩
      | _ => cases kinds
    | _ =>
      cases other with
      | string _ => cases kinds
      | bytes _ => cases kinds
      | _ => exact absurd ⟨rfl, rfl⟩ short

namespace Registry

variable {registry : Registry} {value : Value} {type : Ty} {bytes : Bytes}

/-- No other value is written alike at the same type, whatever follows. -/
def Separated (registry : Registry) (value : Value) : Prop :=
  ∀ ⦃other : Value⦄ ⦃type : Ty⦄ ⦃bytes bytes' rest rest' : Bytes⦄,
    registry.encodeValue value type = .ok bytes →
    registry.encodeValue other type = .ok bytes' → bytes ++ rest = bytes' ++ rest' →
      value = other ∧ rest = rest'

theorem WritesAll.separate {values others : List Value} {types : List Ty}
    {bytes' rest rest' : Bytes} (each : ∀ part ∈ values, registry.Separated part)
    (first : registry.WritesAll values types bytes)
    (second : registry.WritesAll others types bytes') (same : bytes ++ rest = bytes' ++ rest') :
    values = others ∧ rest = rest' := by
  induction first generalizing others bytes' with
  | nil =>
    cases second
    exact ⟨rfl, same⟩
  | cons written _ ih =>
    cases second with
    | cons written' second =>
      rw [List.append_assoc, List.append_assoc] at same
      obtain ⟨rfl, behind⟩ := each _ List.mem_cons_self written written' same
      obtain ⟨rfl, rests⟩ :=
        ih (fun part member => each part (List.mem_cons_of_mem _ member)) second behind
      exact ⟨rfl, rests⟩

/-- A value without parts is as it stands for a reader to whom everything is known. -/
theorem stands_everything (leaf : value.parts = []) (scope : ScopeId) :
    registry.Stands .everything scope value := by
  cases value with
  | list items =>
    cases leaf
    trivial
  | record type values =>
    cases leaf
    trivial
  | object type payload => cases leaf
  | entity type reference =>
      exact (rfl : Resolver.everything.entity _ type reference = some reference)
  | session type id => exact (rfl : Resolver.everything.session type id = true)
  | definition type id => exact (rfl : Resolver.everything.definition type id = true)
  | scope named => exact (rfl : Resolver.everything.scope named = true)
  | null | unit | scalar _ | enumeration _ _ => trivial

/-- Values of a declared type that is neither a record nor an interface have no parts. -/
theorem parts_eq_nil {name : String} {descriptor : Descriptor}
    (declared : registry.descriptor? name = some descriptor)
    (noRecord : ∀ fields, descriptor ≠ .record fields)
    (plain : ∀ others, descriptor ≠ .interface others)
    (written : registry.encodeValue value (.named name) = .ok bytes) : value.parts = [] := by
  unfold encodeValue at written
  simp only [Ty.encodeLayers, declared] at written
  cases value with
  | list _ | record _ _ | object _ _ =>
    cases descriptor with
    | record fields => exact absurd rfl (noRecord fields)
    | interface others => exact absurd rfl (plain others)
    | reference category => cases category <;> cases written
    | enumeration _ _ | scope => cases written
  | _ => rfl

theorem reads_leaf {name : String} {descriptor : Descriptor}
    (declared : registry.descriptor? name = some descriptor)
    (noRecord : ∀ fields, descriptor ≠ .record fields)
    (plain : ∀ others, descriptor ≠ .interface others)
    (written : registry.encodeValue value (.named name) = .ok bytes) :
    Reads (decodePlain .everything .global
      (registry.decodeWithin .everything .global 0) name descriptor) bytes value := by
  have stands : registry.Stands .everything .global value :=
    stands_everything (parts_eq_nil declared noRecord plain written) .global
  cases descriptor with
  | enumeration repr discriminants =>
      exact (plain_enumeration declared written).congr (resolve_eq_self stands)
  | record fields => exact absurd rfl (noRecord fields)
  | reference category =>
    unfold encodeValue at written
    simp only [Ty.encodeLayers, declared] at written
    exact (RefCategory.reads declared written).congr (resolve_eq_self stands)
  | interface implementations => exact absurd rfl (plain implementations)
  | scope => exact (plain_scope declared written).congr (resolve_eq_self stands)

theorem separated_interface {name : String} {implementations : List String} {other : Value}
    {bytes' rest rest' : Bytes} (sound : registry.Sound)
    (each : ∀ part ∈ value.parts, registry.Separated part)
    (declared : registry.descriptor? name = some (.interface implementations))
    (first : registry.encodeValue value (.named name) = .ok bytes)
    (second : registry.encodeValue other (.named name) = .ok bytes')
    (same : bytes ++ rest = bytes' ++ rest') : value = other ∧ rest = rest' := by
  rcases encodeValue_interface_eq_ok declared first
    with ⟨rfl, rfl⟩ | ⟨concrete, payload, index, body, rfl, listed, inner, rfl⟩ <;>
    rcases encodeValue_interface_eq_ok declared second
      with ⟨rfl, rfl⟩ | ⟨concrete', payload', index', body', rfl, listed', inner', rfl⟩
  · exact ⟨rfl, List.append_cancel_left same⟩
  · rw [List.append_assoc] at same
    have marks := ((reads_uint16 _).separate (reads_uint16 _) same).1
    exact absurd marks.symm (sound.index_spec declared listed').2
  · rw [List.append_assoc] at same
    have marks := ((reads_uint16 _).separate (reads_uint16 _) same).1
    exact absurd marks (sound.index_spec declared listed).2
  · rw [List.append_assoc, List.append_assoc] at same
    obtain ⟨numbers, behind⟩ := (reads_uint16 _).separate (reads_uint16 _) same
    have indices := congrArg UInt16.toNat numbers
    rw [(sound.index_spec declared listed).1, (sound.index_spec declared listed').1] at indices
    rw [indices, listed'] at listed
    cases listed
    obtain ⟨rfl, rests⟩ := each payload (List.mem_singleton_self _) inner inner' behind
    exact ⟨rfl, rests⟩

theorem separated_of_parts (sound : registry.Sound)
    (each : ∀ part ∈ value.parts, registry.Separated part) : registry.Separated value := by
  intro other type bytes bytes' rest rest' first second same
  induction type generalizing bytes bytes' with
  | unit =>
    obtain ⟨rfl, rfl⟩ := encodeValue_unit_eq_ok first
    obtain ⟨rfl, rfl⟩ := encodeValue_unit_eq_ok second
    exact ⟨rfl, same⟩
  | scalar kind =>
    obtain ⟨scalar, rfl, rfl, encoded⟩ := encodeValue_scalar_eq_ok first
    obtain ⟨scalar', rfl, kinds, encoded'⟩ := encodeValue_scalar_eq_ok second
    obtain ⟨rfl, rests⟩ := Scalar.separate kinds.symm encoded encoded' same
    exact ⟨rfl, rests⟩
  | list element _ =>
    obtain ⟨items, count, body, rfl, counted, parts, rfl⟩ := encodeValue_list_eq_ok first
    obtain ⟨items', count', body', rfl, counted', parts', rfl⟩ := encodeValue_list_eq_ok second
    rw [List.append_assoc, List.append_assoc] at same
    obtain ⟨lengths, behind⟩ := (reads_count counted).separate (reads_count counted') same
    rw [List.map_const'] at parts parts'
    rw [← lengths] at parts'
    obtain ⟨rfl, rests⟩ := parts.separate each parts' behind
    exact ⟨rfl, rests⟩
  | nullable inner ih =>
    rcases encodeValue_nullable_eq_ok first with ⟨rfl, rfl⟩ | ⟨body, left, rfl⟩ <;>
      rcases encodeValue_nullable_eq_ok second with ⟨rfl, rfl⟩ | ⟨body', right, rfl⟩
    · exact ⟨rfl, List.append_cancel_left same⟩
    · exact absurd (List.cons.inj same).1 (by decide)
    · exact absurd (List.cons.inj same).1 (by decide)
    · have behind : [0, 1] ++ (body ++ rest) = [0, 1] ++ (body' ++ rest') := same
      exact ih left right (List.append_cancel_left behind)
  | named name =>
    cases declared : registry.descriptor? name with
    | none =>
      rw [encodeValue_undeclared declared] at first
      cases first
    | some descriptor =>
      cases descriptor with
      | interface implementations => exact separated_interface sound each declared first second same
      | record fields =>
        obtain ⟨values, rfl, _, parts⟩ := encodeValue_record_eq_ok declared first
        obtain ⟨values', rfl, _, parts'⟩ := encodeValue_record_eq_ok declared second
        obtain ⟨rfl, rests⟩ := parts.separate each parts' same
        exact ⟨rfl, rests⟩
      | enumeration _ _ | reference _ | scope =>
        have left :=
          reads_leaf declared (by intro _ impossible; cases impossible)
            (by intro _ impossible; cases impossible) first
        have right :=
          reads_leaf declared (by intro _ impossible; cases impossible)
            (by intro _ impossible; cases impossible) second
        exact left.separate right same

/-- At one type no value is written as the beginning of another. -/
theorem separated (sound : registry.Sound) (value : Value) : registry.Separated value := by
  induction value using Value.induct with
  | step value ih => exact separated_of_parts sound ih

theorem encode_injective (sound : registry.Sound) {other : Value}
    (first : registry.encode type value = .ok bytes)
    (second : registry.encode type other = .ok bytes) : value = other :=
  (separated sound value first second (rfl : bytes ++ [] = bytes ++ [])).1

end Registry

end Lockstep
