/-! # Byte strings and little-endian numbers

A number of a fixed width is written with its low byte first.
-/

namespace Lockstep

/-- A byte string. -/
abbrev Bytes := List UInt8

namespace Bytes

/-- The low `width` bytes of a number, least significant first. -/
def ofNat : Nat → Nat → Bytes
  | 0, _ => []
  | width + 1, n => UInt8.ofNat n :: ofNat width (n / 256)

/-- The number that bytes spell, least significant first. -/
def toNat : Bytes → Nat
  | [] => 0
  | byte :: rest => byte.toNat + 256 * toNat rest

@[simp] theorem length_ofNat (width n : Nat) : (ofNat width n).length = width := by
  induction width generalizing n with
  | zero => rfl
  | succ width ih => simp [ofNat, ih]

def ofUInt16 (v : UInt16) : Bytes := ofNat 2 v.toNat

def ofUInt32 (v : UInt32) : Bytes := ofNat 4 v.toNat

def ofUInt64 (v : UInt64) : Bytes := ofNat 8 v.toNat

/-- A signed word is written as the unsigned word with the same bits. -/
def ofInt32 (v : Int32) : Bytes := ofUInt32 v.toUInt32

/-- The bytes of a text. -/
def ofString (text : String) : Bytes := text.toUTF8.data.toList

/-- The text that bytes spell, if they are well-formed. -/
def toString? (bytes : Bytes) : Option String := String.fromUTF8? bytes.toByteArray

end Bytes

end Lockstep
