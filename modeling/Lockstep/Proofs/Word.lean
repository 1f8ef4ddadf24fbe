import Mathlib.Logic.Function.Basic

/-! # Words

Sums, differences and products of words wrap around. The steps here refuse instead, so that what is put
together from them has a value only where nothing wraps. A product with a factor that has an inverse may
wrap: it still tells all words apart.
-/

namespace Lockstep

/-- The sum, if it fits. -/
def UInt32.add? (a b : UInt32) : Option UInt32 :=
  if a.toNat + b.toNat < UInt32.size then some (a + b) else none

/-- The difference, if it is one of numbers. -/
def UInt32.sub? (a b : UInt32) : Option UInt32 := if b ≤ a then some (a - b) else none

/-- The product, if it fits. -/
def UInt64.mul? (a b : UInt64) : Option UInt64 :=
  if a.toNat * b.toNat < UInt64.size then some (a * b) else none

/-- The same number as a shorter word, if it fits. -/
def UInt64.toUInt32? (a : UInt64) : Option UInt32 :=
  if a.toNat < UInt32.size then some a.toUInt32 else none

/-- The product of two words fits in twice the width. -/
theorem UInt32.toNat_mul_toNat_lt (a b : UInt32) : a.toNat * b.toNat < UInt64.size :=
  Nat.mul_lt_mul'' (c := 2 ^ 32) (d := 2 ^ 32) a.toNat_lt b.toNat_lt

theorem UInt32.toNat_wideMul (a b : UInt32) :
    (a.toUInt64 * b.toUInt64).toNat = a.toNat * b.toNat := by
  rw [UInt64.toNat_mul, UInt32.toNat_toUInt64, UInt32.toNat_toUInt64]
  exact Nat.mod_eq_of_lt (UInt32.toNat_mul_toNat_lt a b)

theorem UInt32.mul?_toUInt64 (a b : UInt32) :
    UInt64.mul? a.toUInt64 b.toUInt64 = some (a.toUInt64 * b.toUInt64) :=
  if_pos (UInt32.toNat_mul_toNat_lt a b)

/-- The upper half of such a product is a word again. -/
theorem UInt32.toUInt32?_upper (a b : UInt32) : UInt64.toUInt32? ((a.toUInt64 * b.toUInt64) >>> 32) =
    some (UInt32.ofNat (a.toNat * b.toNat / UInt32.size)) := by
  have upper : ((a.toUInt64 * b.toUInt64) >>> 32).toNat = a.toNat * b.toNat / UInt32.size := by
    rw [UInt64.toNat_shiftRight, UInt32.toNat_wideMul, Nat.shiftRight_eq_div_pow]
    rfl
  have small : a.toNat * b.toNat / UInt32.size < UInt32.size :=
    Nat.div_lt_of_lt_mul (UInt32.toNat_mul_toNat_lt a b)
  rw [← upper] at small ⊢
  exact if_pos small

theorem UInt64.mul_left_injective {factor inverse : UInt64} (unit : factor * inverse = 1) :
    Function.Injective (· * factor) := by
  intro first second same
  have back : first * factor * inverse = second * factor * inverse := congrArg (· * inverse) same
  rwa [UInt64.mul_assoc, UInt64.mul_assoc, unit, UInt64.mul_one, UInt64.mul_one] at back

end Lockstep
