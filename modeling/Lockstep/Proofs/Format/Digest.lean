import Lockstep.Format.Digest
import Lockstep.Proofs.Word
import Mathlib.Data.List.Basic

/-! # What digests notice

A digest takes in a byte by an exclusive or and a product with an odd factor. Both are undone by what undoes
them, so a step tells the digests before it apart as well as the bytes that it takes in. Whatever follows a
difference carries it on: byte strings that differ in one byte have different digests
(`Digest.ofBytes_ne`).
-/

namespace Lockstep

namespace Bytes

variable {first second : Bytes}

/-- Byte strings of one length differ in exactly one byte. -/
structure DifferOnce (first second : Bytes) : Prop where
  length : first.length = second.length
  once : ∃! place : Nat, first[place]? ≠ second[place]?

theorem take_drop_congr {place : Nat} (same : ∀ other ≠ place, first[other]? = second[other]?) :
    first.take place = second.take place ∧ first.drop (place + 1) = second.drop (place + 1) := by
  constructor
  · apply List.ext_getElem?
    intro other
    rw [List.getElem?_take, List.getElem?_take]
    split
    next before => exact same other (Nat.ne_of_lt before)
    next => rfl
  · apply List.ext_getElem?
    intro other
    rw [List.getElem?_drop, List.getElem?_drop]
    exact same _ (by omega)

theorem DifferOnce.exists_split (differ : first.DifferOnce second) : ∃ before byte byte' after,
    first = before ++ byte :: after ∧ second = before ++ byte' :: after ∧ byte ≠ byte' := by
  obtain ⟨length, place, differ, only⟩ := differ
  have same : ∀ other ≠ place, first[other]? = second[other]? := fun other apart =>
    by_contra fun differ => apart (only other differ)
  obtain ⟨before, after⟩ := take_drop_congr same
  have inside : place < first.length := by
    by_contra beyond
    exact differ (by rw [List.getElem?_eq_none (by omega), List.getElem?_eq_none (by omega)])
  have inside' : place < second.length := length ▸ inside
  refine ⟨first.take place, first[place], second[place], first.drop (place + 1), ?_, ?_, ?_⟩
  · rw [List.getElem_cons_drop, List.take_append_drop]
  · rw [before, after, List.getElem_cons_drop, List.take_append_drop]
  · intro equal
    exact differ (by rw [List.getElem?_eq_getElem inside, List.getElem?_eq_getElem inside', equal])

theorem differOnce_of_split {byte byte' : UInt8} (apart : byte ≠ byte') (before after : Bytes) :
    DifferOnce (before ++ byte :: after) (before ++ byte' :: after) where
  length := by simp only [List.length_append, List.length_cons]
  once := by
    refine ⟨before.length, ?_, fun other differ => ?_⟩
    · simpa using apart
    · by_contra elsewhere
      refine differ ?_
      rcases Nat.lt_or_gt_of_ne elsewhere with inside | beyond
      · rw [List.getElem?_append_left inside, List.getElem?_append_left inside]
      · obtain ⟨past, rfl⟩ := Nat.exists_eq_add_of_lt beyond
        simp [List.getElem?_append_right, Nat.add_assoc]

theorem DifferOnce.append_left (differ : first.DifferOnce second) (front : Bytes) :
    DifferOnce (front ++ first) (front ++ second) := by
  obtain ⟨before, byte, byte', after, rfl, rfl, apart⟩ := differ.exists_split
  rw [← List.append_assoc, ← List.append_assoc]
  exact differOnce_of_split apart _ _

theorem DifferOnce.append_right (differ : first.DifferOnce second) (rest : Bytes) :
    DifferOnce (first ++ rest) (second ++ rest) := by
  obtain ⟨before, byte, byte', after, rfl, rfl, apart⟩ := differ.exists_split
  rw [List.append_assoc, List.append_assoc]
  exact differOnce_of_split apart _ _

end Bytes

namespace Digest

theorem factor_unit : factor * 0xce965057aff6957b = 1 := by decide

/-- What a digest comes to tells what it came from. -/
theorem step_left_injective (byte : UInt8) : Function.Injective (step · byte) := by
  intro digest digest' same
  have mixed := UInt64.mul_left_injective factor_unit same
  exact (UInt64.xor_left_inj _).mp mixed

/-- It tells the byte that was taken in. -/
theorem step_right_injective (digest : Digest) : Function.Injective (step digest) := by
  intro byte byte' same
  have mixed := UInt64.mul_left_injective factor_unit same
  have wide : byte.toUInt64 = byte'.toUInt64 := (UInt64.xor_right_inj _).mp mixed
  rw [← UInt8.toNat_inj, ← UInt8.toNat_toUInt64, wide, UInt8.toNat_toUInt64]

theorem update_left_injective (bytes : Bytes) : Function.Injective (update · bytes) := by
  induction bytes with
  | nil => exact fun _ _ same => same
  | cons byte rest ih => exact ih.comp (step_left_injective byte)

/-- No byte string covers up a difference before it. -/
theorem ofBytes_ne {first second : Bytes} (differ : first.DifferOnce second) :
    ofBytes first ≠ ofBytes second := by
  obtain ⟨before, byte, byte', after, rfl, rfl, apart⟩ := differ.exists_split
  intro same
  rw [ofBytes, ofBytes, update_append, update_append] at same
  have steps : step (update start before) byte = step (update start before) byte' :=
    update_left_injective after same
  exact apart (step_right_injective _ steps)

end Digest

end Lockstep
