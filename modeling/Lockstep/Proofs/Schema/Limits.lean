import Lockstep.Proofs.Schema.RoundTrip

/-! # What readers refuse

A reader has two limits: the length of a text or byte string, and the depth of nesting. Within both a
written value is read back (`readsBack`). Beyond either it is refused, at the first part that is too
long or too deep; so the limits are exact. A writer knows neither of them.
-/

namespace Lockstep

open Decoder

namespace Registry

variable {registry : Registry} {resolver : Resolver} {scope : ScopeId} {value : Value}
  {type : Ty} {bytes : Bytes} {levels : Nat}

/-- A value written at a type is within the limits of a reader of so many levels. -/
def Within (registry : Registry) (levels : Nat) (type : Ty) (value : Value) : Prop :=
  value.longestBlob ≤ maxBlobLength ∧ registry.nesting value type < levels

/-- A written value is refused by every reader whose limits it exceeds. -/
def Refused (registry : Registry) (resolver : Resolver) (scope : ScopeId) (value : Value) : Prop :=
  ∀ ⦃type : Ty⦄ ⦃bytes : Bytes⦄ ⦃levels : Nat⦄, registry.encodeValue value type = .ok bytes →
    ¬registry.Within levels type value →
      Refuses (registry.decodeWithin resolver scope levels type) bytes

/-- The same at a declared type that is no interface, where the levels are those of the parts. -/
def RefusedPlain (registry : Registry) (resolver : Resolver) (scope : ScopeId) (value : Value) :
    Prop :=
  ∀ ⦃name : String⦄ ⦃descriptor : Descriptor⦄ ⦃bytes : Bytes⦄ ⦃levels : Nat⦄,
    registry.descriptor? name = some descriptor → (∀ others, descriptor ≠ .interface others) →
      registry.encodeValue value (.named name) = .ok bytes →
        ¬registry.Within (levels + 1) (.named name) value →
          Refuses (decodePlain resolver scope
            (registry.decodeWithin resolver scope levels) name descriptor) bytes

/-- What is read within the limits and refused beyond them. -/
theorem Refused.readsIff (refused : registry.Refused resolver scope value) (sound : registry.Sound)
    (written : registry.encodeValue value type = .ok bytes) (levels : Nat) :
    ReadsIff (registry.decodeWithin resolver scope levels type) bytes
      (registry.Within levels type value) (registry.resolve resolver scope value) where
  reads within := (readsBack sound value).1 written within.1 within.2
  refuses beyond := refused written beyond

/-! ## Several values -/

/-- Several items are refused if one of them is too long or too deep: the first such one stops the
reader. -/
theorem refuses_items {element : Ty} {items : List Value} (sound : registry.Sound)
    (each : ∀ item ∈ items, registry.Refused resolver scope item)
    (beyond : ¬(Value.longestBlob.longestBlobOf items ≤ maxBlobLength ∧
      registry.nestingItems items element ≤ levels)) (before : List Value)
    (written : registry.WritesAll items (items.map fun _ => element) bytes) :
    Refuses (repeatOnto (registry.decodeWithin resolver scope levels element) items.length before)
      bytes := by
  induction items generalizing before bytes with
  | nil => exact absurd ⟨Nat.zero_le _, Nat.zero_le _⟩ beyond
  | cons item items ih =>
    cases written with
    | cons first rest =>
      have head := (each item List.mem_cons_self).readsIff sound first levels
      by_cases within : registry.Within levels element item
      · have beyond : ¬(Value.longestBlob.longestBlobOf items ≤ maxBlobLength ∧
            registry.nestingItems items element ≤ levels) := by
          intro others
          refine beyond ⟨Nat.max_le.mpr ⟨within.1, others.1⟩, ?_⟩
          rw [nestingItems]
          exact Nat.max_le.mpr ⟨within.2, others.2⟩
        have tail := ih (fun other member => each other (List.mem_cons_of_mem _ member)) beyond
          (registry.resolve resolver scope item :: before) rest
        exact (head.reads within).bind_refuses tail
      · exact ((head.refuses within).bind _).append _

/-- The parts of a record are refused likewise. -/
theorem refuses_fields {values : List Value} {fields : List Field} (sound : registry.Sound)
    (each : ∀ part ∈ values, registry.Refused resolver scope part)
    (beyond : ¬(Value.longestBlob.longestBlobOf values ≤ maxBlobLength ∧
      registry.nestingFields values fields ≤ levels)) (before : List Value)
    (written : registry.WritesAll values (fields.map (·.type)) bytes) :
    Refuses (fields.foldlM (fun values field => do
        let value ← registry.decodeWithin resolver scope levels field.type
        return value :: values) before) bytes := by
  induction values generalizing fields before bytes with
  | nil =>
    refine absurd ⟨Nat.zero_le _, ?_⟩ beyond
    rw [nestingFields]
    · exact Nat.zero_le _
    · intro _ _ _ _ impossible
      cases impossible
  | cons value values ih =>
    cases fields with
    | nil => cases written
    | cons field fields =>
      cases written with
      | cons first rest =>
        have head := (each value List.mem_cons_self).readsIff sound first levels
        have part : ReadsIff (do
            let value ← registry.decodeWithin resolver scope levels field.type
            return value :: before) _ _ (registry.resolve resolver scope value :: before) :=
          head.bind_last (.pure _)
        rw [List.foldlM_cons]
        by_cases within : registry.Within levels field.type value
        · have beyond : ¬(Value.longestBlob.longestBlobOf values ≤ maxBlobLength ∧
              registry.nestingFields values fields ≤ levels) := by
            intro others
            refine beyond ⟨Nat.max_le.mpr ⟨within.1, others.1⟩, ?_⟩
            rw [nestingFields]
            exact Nat.max_le.mpr ⟨within.2, others.2⟩
          have tail := ih (fun other member => each other (List.mem_cons_of_mem _ member)) beyond
            (registry.resolve resolver scope value :: before) rest
          exact (part.reads within).bind_refuses tail
        · exact ((part.refuses within).bind _).append _

/-! ## All types -/

/-- A value of a declared type that is neither a record nor an interface has no texts and does not
nest. -/
theorem within_leaf {name : String} {descriptor : Descriptor}
    (declared : registry.descriptor? name = some descriptor)
    (noRecord : ∀ fields, descriptor ≠ .record fields)
    (plain : ∀ others, descriptor ≠ .interface others)
    (written : registry.encodeValue value (.named name) = .ok bytes) :
    registry.Within (levels + 1) (.named name) value := by
  unfold encodeValue at written
  simp only [Ty.encodeLayers, declared] at written
  cases value with
  | scalar _ | list _ | record _ _ | object _ _ =>
    cases descriptor with
    | record fields => exact absurd rfl (noRecord fields)
    | interface others => exact absurd rfl (plain others)
    | reference category => cases category <;> cases written
    | enumeration _ _ | scope => cases written
  | _ => exact ⟨Nat.zero_le _, by simp only [nesting, Ty.layers]; omega⟩

theorem refusedPlain_of_parts (sound : registry.Sound)
    (each : ∀ part ∈ value.parts, registry.Refused resolver scope part) :
    registry.RefusedPlain resolver scope value := by
  intro name descriptor bytes levels declared plain written beyond
  cases descriptor with
  | record fields =>
    obtain ⟨values, rfl, _, parts⟩ := encodeValue_record_eq_ok declared written
    simp only [Within, nesting, Ty.layers, Ty.core, declared, Nat.zero_add, Nat.lt_succ_iff] at beyond
    exact (refuses_fields sound each beyond [] parts).bind _
  | interface implementations => exact absurd rfl (plain implementations)
  | enumeration _ _ | reference _ | scope =>
    exact absurd (within_leaf declared (by simp) (by simp) written) beyond

theorem refuses_list {element : Ty} (sound : registry.Sound)
    (each : ∀ part ∈ value.parts, registry.Refused resolver scope part)
    (written : registry.encodeValue value (.list element) = .ok bytes)
    (beyond : ¬registry.Within (levels + 1) (.list element) value) :
    Refuses (registry.decodeWithin resolver scope (levels + 1) (.list element)) bytes := by
  obtain ⟨items, count, body, rfl, counted, parts, rfl⟩ := encodeValue_list_eq_ok written
  simp only [Within, nesting, Ty.layers, Ty.core, Nat.zero_add, Nat.lt_succ_iff] at beyond
  rw [decodeWithin_succ]
  exact (reads_count counted).lift.bind_refuses
    (((refuses_items sound each beyond [] parts).map List.reverse).bind _)

/-- Behind an interface the parts of a record lie one level deeper than in the record itself. -/
theorem refuses_interface {name : String} {implementations : List String} (sound : registry.Sound)
    (each : ∀ part ∈ value.parts, registry.RefusedPlain resolver scope part)
    (declared : registry.descriptor? name = some (.interface implementations))
    (written : registry.encodeValue value (.named name) = .ok bytes)
    (beyond : ¬registry.Within (levels + 1) (.named name) value) :
    Refuses (registry.decodeWithin resolver scope (levels + 1) (.named name)) bytes := by
  rw [decodeWithin_named, decodeNamed, declared]
  rcases encodeValue_interface_eq_ok declared written
    with ⟨rfl, rfl⟩ | ⟨concrete, payload, index, body, rfl, listed, inner, rfl⟩
  · exact absurd ⟨Nat.zero_le _, Nat.succ_pos _⟩ beyond
  · obtain ⟨number, apart⟩ := sound.index_spec declared listed
    obtain ⟨descriptor, there, plain⟩ := sound.concrete declared (List.mem_of_getElem? listed)
    have beyond : ¬registry.Within (levels - 1 + 1) (.named concrete) payload := by
      rintro ⟨short, shallow⟩
      refine beyond ⟨short, ?_⟩
      simp only [nesting, Ty.layers, Nat.zero_add]
      split
      next => exact Nat.succ_pos _
      next level nested =>
        change level + 2 < levels + 1
        omega
    have refuses := each payload (List.mem_singleton_self _) there plain inner beyond
    apply (reads_uint16 _).lift.bind_refuses
    rw [if_neg apart, number, listed]
    simp only [there]
    exact refuses.bind _

/-- A value is refused beyond the limits if its parts are. -/
theorem refused_of_parts (sound : registry.Sound)
    (each : ∀ part ∈ value.parts, registry.Refused resolver scope part)
    (plain : ∀ part ∈ value.parts, registry.RefusedPlain resolver scope part) :
    registry.Refused resolver scope value := by
  intro type bytes levels written beyond
  cases levels with
  | zero => exact (refuses_throw _).append bytes
  | succ level =>
    induction type generalizing bytes level with
    | unit =>
      obtain ⟨rfl, rfl⟩ := encodeValue_unit_eq_ok written
      exact absurd ⟨Nat.zero_le _, Nat.succ_pos _⟩ beyond
    | scalar kind =>
      obtain ⟨scalar, rfl, rfl, encoded⟩ := encodeValue_scalar_eq_ok written
      have long : maxBlobLength < scalar.blobLength :=
        Nat.lt_of_not_le fun short => beyond ⟨short, Nat.succ_pos _⟩
      rw [decodeWithin_succ]
      exact ((Scalar.refuses encoded long).mapError _).bind _
    | list element _ => exact refuses_list sound each written beyond
    | nullable inner ih =>
      cases absent : value.isNull with
      | true =>
        cases value with
        | null => exact absurd ⟨Nat.zero_le _, Nat.succ_pos _⟩ beyond
        | _ => cases absent
      | false =>
        rw [encodeValue_nullable absent] at written
        obtain ⟨body, inside, flat⟩ := bind_eq_ok.mp written
        cases flat
        rw [Within, nesting_nullable absent, Nat.succ_lt_succ_iff] at beyond
        rw [decodeWithin_succ]
        refine (reads_bool false).lift.bind_refuses ((reads_bool true).lift.bind_refuses ?_)
        cases level with
        | zero => exact (refuses_throw _).append body
        | succ level => exact ih inside level beyond
    | named name =>
      cases declared : registry.descriptor? name with
      | none =>
        rw [encodeValue_undeclared declared] at written
        cases written
      | some descriptor =>
        cases descriptor with
        | interface implementations => exact refuses_interface sound plain declared written beyond
        | _ =>
          rw [decodeWithin_named, decodeNamed, declared]
          exact refusedPlain_of_parts sound each declared (by simp) written beyond

theorem refused (sound : registry.Sound) (value : Value) :
    registry.Refused resolver scope value ∧ registry.RefusedPlain resolver scope value := by
  induction value using Value.induct with
  | step value ih =>
    have each := fun part member => (ih part member).1
    exact ⟨refused_of_parts sound each fun part member => (ih part member).2,
      refusedPlain_of_parts sound each⟩

/-! ## Readers of messages -/

/-- A value written at a type is one that readers of messages take. -/
def Fits (registry : Registry) (type : Ty) (value : Value) : Prop :=
  value.longestBlob ≤ maxBlobLength ∧ registry.nesting value type ≤ maxDepth

instance (registry : Registry) (type : Ty) (value : Value) : Decidable (registry.Fits type value) :=
  inferInstanceAs (Decidable (_ ∧ _))

/-- A written value is read back as the resolver knows it exactly if it fits. -/
theorem readsIff_decode (sound : registry.Sound) (written : registry.encode type value = .ok bytes)
    (resolver : Resolver) (context : WireContext) :
    ReadsIff (registry.decode resolver context type) bytes (registry.Fits type value)
      (registry.resolve resolver context.lookupScope value) :=
  ((refused sound value).1.readsIff sound written (maxDepth + 1)).limits
    (and_congr_right fun _ => Nat.lt_succ_iff.symm)

end Registry

end Lockstep
