import Lockstep.Proofs.Format.Reading
import Lockstep.Schema.Decode
import Lockstep.Schema.Encode

/-! # Reading scalars back

A scalar is read back from its bytes at its own kind, and so is a discriminant at the kind of its
enumeration. Floating-point numbers are bit patterns and come back as they are.
-/

namespace Lockstep

open Decoder

/-- The length of a text or byte string, which has a limit when it is read. -/
def Scalar.blobLength : Scalar → Nat
  | .string text => (Bytes.ofString text).length
  | .bytes blob => blob.length
  | _ => 0

theorem Scalar.reads {scalar : Scalar} {bytes : Bytes} (written : scalar.encode = .ok bytes)
    (short : scalar.blobLength ≤ maxBlobLength) : Reads scalar.kind.decode bytes scalar := by
  cases scalar with
  | bool v =>
    cases written
    exact (reads_bool v).map Scalar.bool
  | u8 v =>
    cases written
    exact (reads_uint8 v).map Scalar.u8
  | i8 v =>
    cases written
    exact ((reads_uint8 v.toUInt8).map (Scalar.i8 ·.toInt8)).congr
      (congrArg _ (Int8.toInt8_toUInt8 v))
  | u16 v =>
    cases written
    exact (reads_uint16 v).map Scalar.u16
  | i16 v =>
    cases written
    exact ((reads_uint16 v.toUInt16).map (Scalar.i16 ·.toInt16)).congr
      (congrArg _ (Int16.toInt16_toUInt16 v))
  | u32 v =>
    cases written
    exact (reads_uint32 v).map Scalar.u32
  | i32 v =>
    cases written
    exact (reads_int32 v).map Scalar.i32
  | u64 v =>
    cases written
    exact (reads_uint64 v).map Scalar.u64
  | i64 v =>
    cases written
    exact ((reads_uint64 v.toUInt64).map (Scalar.i64 ·.toInt64)).congr
      (congrArg _ (Int64.toInt64_toUInt64 v))
  | f32 v =>
    cases written
    exact (reads_uint32 v.bits).map (Scalar.f32 ⟨·⟩)
  | f64 v =>
    cases written
    exact (reads_uint64 v.bits).map (Scalar.f64 ⟨·⟩)
  | string text => exact (reads_text written short).map Scalar.string
  | bytes blob => exact (reads_blob written short).map Scalar.bytes

/-- A text or byte string that is too long is refused. -/
theorem Scalar.refuses {scalar : Scalar} {bytes : Bytes} (written : scalar.encode = .ok bytes)
    (long : maxBlobLength < scalar.blobLength) : Refuses scalar.kind.decode bytes := by
  cases scalar with
  | string text => exact (refuses_text written long).map Scalar.string
  | bytes blob => exact (refuses_blob written long).map Scalar.bytes
  | _ => exact absurd long (Nat.not_lt_zero _)

/-! ## Discriminants -/

/-- A word that is not negative is the same number without its sign. -/
theorem Int64.toInt_eq_toNat {n : Int64} (nonneg : 0 ≤ n.toInt) : n.toInt = n.toUInt64.toNat := by
  have signed : n.toInt = n.toUInt64.toBitVec.toInt := rfl
  have word : n.toUInt64.toNat = n.toUInt64.toBitVec.toNat := rfl
  rw [BitVec.toInt_eq_toNat_cond] at signed
  split at signed
  · omega
  · omega

theorem Int64.toInt64_eq {n : Int64} {word : UInt64} (same : word.toNat = n.toUInt64.toNat) :
    word.toInt64 = n := by
  have words : word = n.toUInt64 := UInt64.toNat_inj.mp same
  rw [words, Int64.toInt64_toUInt64]

/-- Plain data is read alike as a part of a value. -/
theorem Decoder.Reads.lift {α : Type} {decoder : Decoder FormatError α} {bytes : Bytes}
    {value : α} (reads : Reads decoder bytes value) :
    Reads (liftM decoder : Decoder DecodeError α) bytes value :=
  reads.mapError DecodeError.format

namespace ScalarKind

theorem holds_iff {kind : ScalarKind} {n : Int64} :
    kind.holds n = true ↔ kind.bounds.1 ≤ n.toInt ∧ n.toInt ≤ kind.bounds.2 := by
  rw [holds, Bool.and_eq_true, decide_eq_true_iff, decide_eq_true_iff]

/-- A discriminant comes back from the bytes of the scalar that it is written as. -/
theorem reads_discriminant {kind : ScalarKind} {n : Int64} {scalar : Scalar} {bytes : Bytes}
    (fits : kind.ofInt? n = some scalar) (written : scalar.encodeValue = .ok bytes) :
    Reads kind.decodeInt bytes n := by
  unfold ofInt? at fits
  split at fits
  next held =>
    have within := holds_iff.mp held
    cases kind with
    | u8 =>
      have within : 0 ≤ n.toInt ∧ n.toInt ≤ 255 := within
      have word := Int64.toInt_eq_toNat within.1
      cases fits
      cases written
      refine (reads_uint8 _).lift.bind_last ((Reads.pure _).congr (Int64.toInt64_eq ?_))
      rw [UInt8.toNat_toUInt64, UInt64.toNat_toUInt8]
      omega
    | u16 =>
      have within : 0 ≤ n.toInt ∧ n.toInt ≤ 65535 := within
      have word := Int64.toInt_eq_toNat within.1
      cases fits
      cases written
      refine (reads_uint16 _).lift.bind_last ((Reads.pure _).congr (Int64.toInt64_eq ?_))
      rw [UInt16.toNat_toUInt64, UInt64.toNat_toUInt16]
      omega
    | u32 =>
      have within : 0 ≤ n.toInt ∧ n.toInt ≤ 4294967295 := within
      have word := Int64.toInt_eq_toNat within.1
      cases fits
      cases written
      refine (reads_uint32 _).lift.bind_last ((Reads.pure _).congr (Int64.toInt64_eq ?_))
      rw [UInt32.toNat_toUInt64, UInt64.toNat_toUInt32]
      omega
    | u64 =>
      have nonneg : 0 ≤ n.toInt := within.1
      have word := Int64.toInt_eq_toNat nonneg
      have small : n.toUInt64.toNat < UInt64.size / 2 := by
        have signed := n.toInt_lt
        have half : UInt64.size / 2 = 9223372036854775808 := rfl
        omega
      cases fits
      cases written
      apply (reads_uint64 _).lift.bind_last
      rw [if_pos small]
      exact (Reads.pure _).congr (Int64.toInt64_toUInt64 n)
    | i8 =>
      have within : -128 ≤ n.toInt ∧ n.toInt ≤ 127 := within
      cases fits
      cases written
      refine (reads_uint8 _).lift.bind_last ((Reads.pure _).congr (Int64.toInt.inj ?_))
      rw [Int8.toInt8_toUInt8, Int8.toInt_toInt64, Int64.toInt_toInt8]
      exact Int.bmod_eq_of_le (by omega) (by omega)
    | i16 =>
      have within : -32768 ≤ n.toInt ∧ n.toInt ≤ 32767 := within
      cases fits
      cases written
      refine (reads_uint16 _).lift.bind_last ((Reads.pure _).congr (Int64.toInt.inj ?_))
      rw [Int16.toInt16_toUInt16, Int16.toInt_toInt64, Int64.toInt_toInt16]
      exact Int.bmod_eq_of_le (by omega) (by omega)
    | i32 =>
      have within : -2147483648 ≤ n.toInt ∧ n.toInt ≤ 2147483647 := within
      cases fits
      cases written
      refine (reads_uint32 _).lift.bind_last ((Reads.pure _).congr (Int64.toInt.inj ?_))
      rw [Int32.toInt32_toUInt32, Int32.toInt_toInt64, Int64.toInt_toInt32]
      exact Int.bmod_eq_of_le (by omega) (by omega)
    | i64 =>
      cases fits
      cases written
      exact (reads_uint64 _).lift.bind_last ((Reads.pure _).congr (Int64.toInt64_toUInt64 n))
    | bool => cases fits
    | f32 => cases fits
    | f64 => cases fits
    | string => cases fits
    | bytes => cases fits
  next => cases fits

end ScalarKind

end Lockstep
