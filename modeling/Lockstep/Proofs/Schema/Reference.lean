import Lockstep.Proofs.Ident
import Lockstep.Proofs.Schema.Resolution
import Lockstep.Proofs.Success

/-! # Reading references back

A reference is written with a mark of its own for no reference at all. The marks are apart from what
is written for any reference, and the reader takes as many bytes whether the resolver knows a
reference or not.
-/

namespace Lockstep

open Decoder

/-! ## Ids -/

theorem reads_id {type : String} {id : UInt32} {bytes : Bytes}
    (written : encodeId type id = .ok bytes) : Reads Decoder.id? bytes (some id) := by
  unfold encodeId at written
  split at written
  next small =>
    cases written
    apply (reads_int32 id.toInt32).bind_last
    rw [if_pos (UInt32.zero_le_toInt32 small)]
    exact .pure (some id)
  next => cases written

theorem reads_no_id : Reads Decoder.id? (.ofInt32 (-1)) none := by
  apply (reads_int32 (-1)).bind_last
  rw [if_neg (by decide)]
  exact .pure none

/-! ## Entities -/

namespace EntityRef

/-- An entity starts with a tag that is not the mark for no entity. -/
theorem reads {type : String} {reference : EntityRef} {bytes : Bytes}
    (written : reference.encode type = .ok bytes) :
    ∃ tag rest, bytes = tag :: rest ∧ tag ≠ 0xff ∧ Reads (decode tag) rest (some reference) := by
  cases reference with
  | spawned id =>
    obtain ⟨encoded, first, written⟩ := bind_eq_ok.mp written
    cases written
    refine ⟨0, encoded, rfl, by decide, ?_⟩
    exact (reads_id first).lift.bind_last (.pure _)
  | nested parent id =>
    obtain ⟨encoded, first, written⟩ := bind_eq_ok.mp written
    obtain ⟨encoded', second, written⟩ := bind_eq_ok.mp written
    cases written
    refine ⟨1, encoded ++ encoded', rfl, by decide, ?_⟩
    exact (reads_id first).lift.bind ((reads_id second).lift.bind_last (.pure _))
  | inComponent owner slot id =>
    obtain ⟨encoded, first, written⟩ := bind_eq_ok.mp written
    obtain ⟨encoded', second, written⟩ := bind_eq_ok.mp written
    cases written
    refine ⟨2, encoded ++ (Bytes.ofUInt16 slot ++ encoded'), rfl, by decide, ?_⟩
    exact (reads_id first).lift.bind
      ((reads_uint16 slot).lift.bind ((reads_id second).lift.bind_last (.pure _)))

end EntityRef

/-! ## Categories -/

namespace RefCategory

variable {registry : Registry} {resolver : Resolver} {scope : ScopeId} {type : String}
  {value : Value} {bytes : Bytes}

/-- World objects are looked up in the global scope, all other entities in the reader's. -/
theorem entityScope_eq {category : RefCategory}
    (declared : registry.descriptor? type = some (.reference category)) :
    registry.entityScope scope type = if category = .worldObject then .global else scope := by
  simp only [Registry.entityScope, declared, Option.some.injEq, Descriptor.reference.injEq]

theorem reads_session (written : session.encode type value = .ok bytes) :
    Reads (session.decode resolver scope type) bytes (registry.resolve resolver scope value) := by
  cases value with
  | null =>
    cases written
    exact reads_no_id.lift.bind_last (.pure _)
  | session actual id =>
    obtain ⟨rfl, written⟩ := guard_eq_ok.mp written
    exact (reads_id written).lift.bind_last (.pure _)
  | _ => cases written

theorem reads_definition (written : definition.encode type value = .ok bytes) :
    Reads (definition.decode resolver scope type) bytes
      (registry.resolve resolver scope value) := by
  cases value with
  | null =>
    cases written
    exact (reads_uint16 0xffff).lift.bind_last (.pure _)
  | definition actual id =>
    obtain ⟨rfl, written⟩ := guard_eq_ok.mp written
    split at written
    next => cases written
    next present =>
      cases written
      apply (reads_uint16 id).lift.bind_last
      rw [if_neg present]
      exact .pure _
  | _ => cases written

/-- Both kinds of entities that stand alone are written as an id; they differ in where the reader
looks. -/
theorem reads_lone {category : RefCategory} (lone : category = spawned ∨ category = worldObject)
    (declared : registry.descriptor? type = some (.reference category))
    (written : category.encode type value = .ok bytes) :
    Reads (category.decode resolver scope type) bytes (registry.resolve resolver scope value) := by
  rcases lone with rfl | rfl
  all_goals
    cases value with
    | null =>
      cases written
      exact reads_no_id.lift.bind_last (.pure _)
    | entity actual reference =>
      cases reference with
      | spawned id =>
        obtain ⟨rfl, written⟩ := guard_eq_ok.mp written
        rw [Registry.resolve, entityScope_eq declared]
        exact (reads_id written).lift.bind_last (.pure _)
      | _ => cases written
    | _ => cases written

theorem reads_thing (declared : registry.descriptor? type = some (.reference thing))
    (written : thing.encode type value = .ok bytes) :
    Reads (thing.decode resolver scope type) bytes (registry.resolve resolver scope value) := by
  cases value with
  | null =>
    cases written
    exact (reads_uint8 0xff).lift.bind_last (.pure _)
  | entity actual reference =>
    obtain ⟨rfl, written⟩ := guard_eq_ok.mp written
    obtain ⟨tag, rest, rfl, present, reads⟩ := EntityRef.reads written
    rw [Registry.resolve, entityScope_eq declared]
    apply (reads_uint8 tag).lift.bind
    rw [if_neg present]
    exact reads.bind_last (.pure _)
  | _ => cases written

/-- A reference is read as what the resolver knows of it. -/
theorem reads {category : RefCategory}
    (declared : registry.descriptor? type = some (.reference category))
    (written : category.encode type value = .ok bytes) :
    Reads (category.decode resolver scope type) bytes (registry.resolve resolver scope value) := by
  cases category with
  | session => exact reads_session written
  | thing => exact reads_thing declared written
  | spawned => exact reads_lone (.inl rfl) declared written
  | worldObject => exact reads_lone (.inr rfl) declared written
  | definition => exact reads_definition written

end RefCategory

end Lockstep
