import Lockstep.Format.Bytes
import Mathlib.Algebra.Ring.Nat

/-! # Numbers and texts as bytes

`toNat_ofNat` and `ofNat_toNat` say that writing and reading numbers are inverse, on the numbers
that fit and on the byte strings of a width; `toString?_ofString` says that a text comes back from
its bytes, and `ofString_of_toString?` that bytes come back from the text that they spell.
-/

namespace Lockstep.Bytes

theorem toNat_lt (bytes : Bytes) : bytes.toNat < 256 ^ bytes.length := by
  induction bytes with
  | nil => decide
  | cons byte rest ih =>
    have small := byte.toNat_lt
    simp only [toNat, List.length_cons, Nat.pow_succ]
    omega

theorem toNat_ofNat {width n : Nat} (fits : n < 256 ^ width) : (ofNat width n).toNat = n := by
  induction width generalizing n with
  | zero => simp only [Nat.pow_zero, Nat.lt_one_iff] at fits; simp [ofNat, toNat, fits]
  | succ width ih =>
    have small : n / 256 < 256 ^ width := by
      rw [Nat.pow_succ] at fits
      omega
    simp only [ofNat, toNat, ih small, UInt8.toNat_ofNat']
    omega

theorem ofNat_toNat (bytes : Bytes) : ofNat bytes.length bytes.toNat = bytes := by
  induction bytes with
  | nil => rfl
  | cons byte rest ih =>
    have small := byte.toNat_lt
    have high : (byte.toNat + 256 * toNat rest) / 256 = toNat rest := by omega
    have low : UInt8.ofNat (byte.toNat + 256 * toNat rest) = byte := by
      apply UInt8.toNat_inj.mp
      rw [UInt8.toNat_ofNat']
      omega
    simp only [List.length_cons, toNat, ofNat, high, low, ih]

theorem toString?_ofString (text : String) : toString? (ofString text) = some text := by
  have bytes : (ofString text).toByteArray = text.toByteArray := by
    rw [ofString, String.toUTF8_eq_toByteArray]
    apply ByteArray.ext
    rw [List.data_toByteArray, Array.toArray_toList]
  have valid : text.toByteArray.IsValidUTF8 := text.isValidUTF8
  rw [toString?, bytes, String.fromUTF8?, dif_pos valid]
  exact congrArg some (String.toByteArray_inj.mp rfl)

theorem ofString_of_toString? {bytes : Bytes} {text : String}
    (spelled : toString? bytes = some text) : ofString text = bytes := by
  unfold toString? String.fromUTF8? at spelled
  split at spelled
  next valid =>
    cases spelled
    rw [ofString, String.toUTF8_eq_toByteArray]
    simp [String.fromUTF8]
  next => cases spelled

end Lockstep.Bytes
