/-! # Floating-point numbers as bit patterns

A number travels as its bits, so that every peer holds the same bits and a NaN keeps its payload.
Comparison is the arithmetic one: a NaN differs from everything, and the two zeros are equal.
-/

namespace Lockstep

/-- The bits of a single-precision number. -/
structure Binary32 where
  bits : UInt32
  deriving DecidableEq, Repr, Inhabited

/-- The bits of a double-precision number. -/
structure Binary64 where
  bits : UInt64
  deriving DecidableEq, Repr, Inhabited

namespace Binary32

/-- The bits without the sign. -/
def magnitude (x : Binary32) : Nat := x.bits.toNat % (UInt32.size / 2)

def isNegative (x : Binary32) : Bool := UInt32.size / 2 ≤ x.bits.toNat

/-- All exponent bits are set and the fraction is not zero. -/
def isNaN (x : Binary32) : Bool := 0x7f800000 < x.magnitude

/-- Arithmetic equality. -/
def equal (x y : Binary32) : Bool :=
  !x.isNaN && !y.isNaN && (x.bits == y.bits || x.magnitude == 0 && y.magnitude == 0)

end Binary32

namespace Binary64

/-- The bits without the sign. -/
def magnitude (x : Binary64) : Nat := x.bits.toNat % (UInt64.size / 2)

/-- All exponent bits are set and the fraction is not zero. -/
def isNaN (x : Binary64) : Bool := 0x7ff0000000000000 < x.magnitude

/-- Arithmetic equality. -/
def equal (x y : Binary64) : Bool :=
  !x.isNaN && !y.isNaN && (x.bits == y.bits || x.magnitude == 0 && y.magnitude == 0)

end Binary64

end Lockstep
