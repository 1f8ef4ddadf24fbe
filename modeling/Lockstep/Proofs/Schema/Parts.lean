import Lockstep.Proofs.Success
import Lockstep.Schema.Encode

/-! # Values and their parts

What is proved of every value is proved of it from its parts. The writer collects the bytes of
several parts in chunks, the latest first; what counts is only that each part has been written at
its type.
-/

namespace Lockstep

/-- The values that a value is made of. -/
def Value.parts : Value → List Value
  | .list items => items
  | .record _ fields => fields
  | .object _ payload => [payload]
  | _ => []

mutual

/-- What holds of a value if it holds of its parts holds of every value. -/
theorem Value.induct {P : Value → Prop}
    (step : ∀ value : Value, (∀ part ∈ value.parts, P part) → P value) : ∀ value, P value
  | .list items => step _ (Value.inductAll step items)
  | .record _ fields => step _ (Value.inductAll step fields)
  | .object _ payload => step _ fun _ member =>
      List.mem_singleton.mp member ▸ Value.induct step payload
  | .null | .unit | .scalar _ | .enumeration _ _
  | .entity _ _ | .session _ _ | .definition _ _ | .scope _ =>
    step _ (List.forall_mem_nil _)

theorem Value.inductAll {P : Value → Prop}
    (step : ∀ value : Value, (∀ part ∈ value.parts, P part) → P value) :
    ∀ values : List Value, ∀ value ∈ values, P value
  | [] => List.forall_mem_nil _
  | value :: values =>
      List.forall_mem_cons.mpr ⟨Value.induct step value, Value.inductAll step values⟩

end

namespace Registry

variable {registry : Registry} {value : Value} {chunks result : List Bytes}

/-- The bytes of several values, each at its type, one after another. -/
inductive WritesAll (registry : Registry) : List Value → List Ty → Bytes → Prop where
  | nil : WritesAll registry [] [] []
  | cons {value : Value} {values : List Value} {type : Ty} {types : List Ty} {bytes rest : Bytes} :
    registry.encodeValue value type = .ok bytes → WritesAll registry values types rest →
      WritesAll registry (value :: values) (type :: types) (bytes ++ rest)

theorem encodeItems_eq_ok {items : List Value} {element : Ty}
    (written : registry.encodeItems items element chunks = .ok result) :
    ∃ bytes, result.reverse.flatten = chunks.reverse.flatten ++ bytes ∧
      registry.WritesAll items (items.map fun _ => element) bytes := by
  induction items generalizing chunks with
  | nil =>
    rw [encodeItems] at written
    cases written
    exact ⟨[], (List.append_nil _).symm, .nil⟩
  | cons item items ih =>
    rw [encodeItems] at written
    obtain ⟨chunk, first, written⟩ := bind_eq_ok.mp written
    obtain ⟨bytes, same, rest⟩ := ih written
    exact ⟨chunk ++ bytes, by simpa using same, .cons first rest⟩

theorem encodeFields_eq_ok {values : List Value} {fields : List Field}
    (count : values.length = fields.length)
    (written : registry.encodeFields values fields chunks = .ok result) :
    ∃ bytes, result.reverse.flatten = chunks.reverse.flatten ++ bytes ∧
      registry.WritesAll values (fields.map (·.type)) bytes := by
  induction values generalizing fields chunks with
  | nil =>
    obtain rfl := List.length_eq_zero_iff.mp count.symm
    rw [encodeFields] at written
    · cases written
      exact ⟨[], (List.append_nil _).symm, .nil⟩
    · intro _ _ _ _ impossible
      cases impossible
  | cons value values ih =>
    cases fields with
    | nil => cases count
    | cons field fields =>
      rw [encodeFields] at written
      obtain ⟨chunk, first, written⟩ := bind_eq_ok.mp written
      obtain ⟨bytes, same, rest⟩ := ih (Nat.succ.inj count) written
      exact ⟨chunk ++ bytes, by simpa using same, .cons first rest⟩

/-! ## Nullable layers -/

theorem encodeValue_null_nullable (inner : Ty) :
    registry.encodeValue .null (.nullable inner) = .ok [1] := by
  unfold encodeValue
  rfl

theorem encodeValue_nullable (present : value.isNull = false) (inner : Ty) :
    registry.encodeValue value (.nullable inner) = do
      return 0 :: 1 :: (← registry.encodeValue value inner) := by
  unfold encodeValue
  rw [Ty.encodeLayers, present]
  rfl

theorem encodeValue_nullable_eq_ok {inner : Ty} {bytes : Bytes}
    (written : registry.encodeValue value (.nullable inner) = .ok bytes) :
    (value = .null ∧ bytes = [1]) ∨
      ∃ body, registry.encodeValue value inner = .ok body ∧ bytes = 0 :: 1 :: body := by
  cases absent : value.isNull with
  | true =>
    cases value with
    | null =>
      rw [encodeValue_null_nullable] at written
      cases written
      exact .inl ⟨rfl, rfl⟩
    | _ => cases absent
  | false =>
    rw [encodeValue_nullable absent] at written
    obtain ⟨body, present, flat⟩ := bind_eq_ok.mp written
    cases flat
    exact .inr ⟨body, present, rfl⟩

/-! ## Values at their types -/

theorem encodeValue_list_eq_ok {element : Ty} {bytes : Bytes}
    (written : registry.encodeValue value (.list element) = .ok bytes) :
    ∃ items count body, value = .list items ∧ Bytes.ofCount? items.length = .ok count ∧
      registry.WritesAll items (items.map fun _ => element) body ∧ bytes = count ++ body := by
  unfold encodeValue at written
  cases value with
  | list items =>
    obtain ⟨count, counted, written⟩ := bind_eq_ok.mp written
    obtain ⟨chunks, written, flat⟩ := bind_eq_ok.mp written
    obtain ⟨body, same, parts⟩ := encodeItems_eq_ok written
    cases flat
    exact ⟨items, count, body, rfl, mapError_eq_ok.mp counted, parts, by rw [same]; rfl⟩
  | _ => cases written

theorem encodeValue_record_eq_ok {name : String} {fields : List Field} {bytes : Bytes}
    (declared : registry.descriptor? name = some (.record fields))
    (written : registry.encodeValue value (.named name) = .ok bytes) :
    ∃ values, value = .record name values ∧ values.length = fields.length ∧
      registry.WritesAll values (fields.map (·.type)) bytes := by
  unfold encodeValue at written
  simp only [Ty.encodeLayers, declared] at written
  cases value with
  | record actual values =>
    obtain ⟨rfl, written⟩ := guard_eq_ok.mp written
    obtain ⟨count, written⟩ := guard_eq_ok.mp written
    obtain ⟨chunks, written, flat⟩ := bind_eq_ok.mp written
    obtain ⟨body, same, parts⟩ := encodeFields_eq_ok count written
    cases flat
    rw [same]
    exact ⟨values, rfl, count, parts⟩
  | _ => cases written

/-- At an interface stands nothing, or the index of an implementation and a value of it. -/
theorem encodeValue_interface_eq_ok {name : String} {implementations : List String}
    {bytes : Bytes} (declared : registry.descriptor? name = some (.interface implementations))
    (written : registry.encodeValue value (.named name) = .ok bytes) :
    (value = .null ∧ bytes = .ofUInt16 0xffff) ∨
      ∃ concrete payload index body, value = .object concrete payload ∧
        implementations[index]? = some concrete ∧
        registry.encodeValue payload (.named concrete) = .ok body ∧
          bytes = .ofUInt16 (.ofNat index) ++ body := by
  unfold encodeValue at written
  simp only [Ty.encodeLayers, declared] at written
  cases value with
  | null =>
    cases written
    exact .inl ⟨rfl, rfl⟩
  | object concrete payload =>
    simp only at written
    split at written
    next => cases written
    next index found =>
      obtain ⟨body, inner, flat⟩ := bind_eq_ok.mp written
      cases flat
      obtain ⟨inside, here, _⟩ := List.findIdx?_eq_some_iff_getElem.mp found
      have listed : implementations[index]? = some concrete := by
        rw [List.getElem?_eq_getElem inside, eq_of_beq here]
      exact .inr ⟨concrete, payload, index, body, rfl, listed, inner, rfl⟩
  | _ => cases written

theorem encodeValue_scalar_eq_ok {kind : ScalarKind} {bytes : Bytes}
    (written : registry.encodeValue value (.scalar kind) = .ok bytes) :
    ∃ scalar, value = .scalar scalar ∧ scalar.kind = kind ∧ scalar.encode = .ok bytes := by
  unfold encodeValue at written
  simp only [Ty.encodeLayers] at written
  cases value with
  | scalar scalar =>
    obtain ⟨same, encoded⟩ := guard_eq_ok.mp written
    exact ⟨scalar, rfl, same, mapError_eq_ok.mp encoded⟩
  | _ => cases written

theorem encodeValue_unit_eq_ok {bytes : Bytes}
    (written : registry.encodeValue value .unit = .ok bytes) : value = .unit ∧ bytes = [] := by
  unfold encodeValue at written
  cases value with
  | unit =>
    cases written
    exact ⟨rfl, rfl⟩
  | _ => cases written

theorem encodeValue_undeclared {name : String} (declared : registry.descriptor? name = none) :
    registry.encodeValue value (.named name) = .error (.unknownType name) := by
  unfold encodeValue
  simp only [Ty.encodeLayers, declared]

end Registry

end Lockstep
