import Lockstep.Format.Scalar

/-! # Plain notation

How bytes and scalars are written where people read them: bytes and the bits of floating-point numbers
in hexadecimal digits, integers in decimal ones, truth values by name.
-/

namespace Lockstep

namespace Hex

/-- The digit of a number below sixteen. -/
def digit (n : Nat) : Char := Char.ofNat (if n < 10 then 48 + n else 87 + n)

/-- What a digit stands for. -/
def digit? (c : Char) : Option Nat :=
  if '0' ≤ c ∧ c ≤ '9' then some (c.toNat - 48)
  else if 'a' ≤ c ∧ c ≤ 'f' then some (c.toNat - 87)
  else if 'A' ≤ c ∧ c ≤ 'F' then some (c.toNat - 55)
  else none

/-- The last digits of a number. -/
def ofNat (width n : Nat) : String :=
  String.ofList ((List.range width).reverse.map fun place => digit ((n >>> (4 * place)) % 16))

def toNat? (text : String) : Option Nat :=
  text.toList.foldlM (fun n c => (digit? c).map (16 * n + ·)) 0

def bytePair (byte : UInt8) : List Char := [digit (byte.toNat / 16), digit (byte.toNat % 16)]

/-- Two digits for each byte. -/
def ofBytes (bytes : Bytes) : String := String.ofList (bytes.flatMap bytePair)

/-- Read bytes behind those that have been read, the latest of which comes first. -/
def readBytes? : List Char → Bytes → Option Bytes
  | [], read => some read.reverse
  | [_], _ => none
  | high :: low :: rest, read =>
    match digit? high, digit? low with
    | some high, some low => readBytes? rest (UInt8.ofNat (16 * high + low) :: read)
    | _, _ => none

def toBytes? (text : String) : Option Bytes := readBytes? text.toList []

end Hex

/-- A scalar in plain notation. -/
def Scalar.text : Scalar → String
  | bool v => toString v
  | u8 v => toString v.toNat
  | i8 v => toString v.toInt
  | u16 v => toString v.toNat
  | i16 v => toString v.toInt
  | u32 v => toString v.toNat
  | i32 v => toString v.toInt
  | u64 v => toString v.toNat
  | i64 v => toString v.toInt
  | f32 v => Hex.ofNat 8 v.bits.toNat
  | f64 v => Hex.ofNat 16 v.bits.toNat
  | string v => v
  | bytes v => Hex.ofBytes v

namespace ScalarKind

/-- Read a truth value. -/
def boolOf? (text : String) : Option Bool :=
  if text = "true" then some true else if text = "false" then some false else none

/-- Read a number below a bound. -/
def natOf? (bound : Nat) (text : String) : Option Nat := text.toNat?.filter (· < bound)

/-- Read a number whose distance from nought is in the signed range of so many values. -/
def intOf? (values : Nat) (text : String) : Option Int :=
  text.toInt?.filter fun n => -(values / 2 : Int) ≤ n && n < (values / 2 : Int)

/-- Read a scalar in plain notation. -/
def ofText? (text : String) : ScalarKind → Option Scalar
  | bool => Scalar.bool <$> boolOf? text
  | u8 => (Scalar.u8 <| .ofNat ·) <$> natOf? UInt8.size text
  | i8 => (Scalar.i8 <| .ofInt ·) <$> intOf? UInt8.size text
  | u16 => (Scalar.u16 <| .ofNat ·) <$> natOf? UInt16.size text
  | i16 => (Scalar.i16 <| .ofInt ·) <$> intOf? UInt16.size text
  | u32 => (Scalar.u32 <| .ofNat ·) <$> natOf? UInt32.size text
  | i32 => (Scalar.i32 <| .ofInt ·) <$> intOf? UInt32.size text
  | u64 => (Scalar.u64 <| .ofNat ·) <$> natOf? UInt64.size text
  | i64 => (Scalar.i64 <| .ofInt ·) <$> intOf? UInt64.size text
  | f32 => (Scalar.f32 ⟨.ofNat ·⟩) <$> Hex.toNat? text
  | f64 => (Scalar.f64 ⟨.ofNat ·⟩) <$> Hex.toNat? text
  | string => some (.string text)
  | bytes => Scalar.bytes <$> Hex.toBytes? text

end ScalarKind

end Lockstep
