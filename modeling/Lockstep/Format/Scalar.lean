import Lockstep.Format.Decoder
import Lockstep.Format.Float

/-! # Scalars

The thirteen kinds of plain value, and their bytes. A value is written without its kind, so a reader
has to know the kind it expects.
-/

namespace Lockstep

/-- The kinds of plain value. -/
inductive ScalarKind where
  | bool | u8 | i8 | u16 | i16 | u32 | i32 | u64 | i64 | f32 | f64 | string | bytes
  deriving DecidableEq, Repr, Inhabited

/-- A plain value. -/
inductive Scalar where
  | bool (value : Bool)
  | u8 (value : UInt8)
  | i8 (value : Int8)
  | u16 (value : UInt16)
  | i16 (value : Int16)
  | u32 (value : UInt32)
  | i32 (value : Int32)
  | u64 (value : UInt64)
  | i64 (value : Int64)
  | f32 (value : Binary32)
  | f64 (value : Binary64)
  | string (value : String)
  | bytes (value : Bytes)
  deriving DecidableEq, Repr

namespace ScalarKind

/-- The name of a kind in declarations and messages. -/
def name : ScalarKind → String
  | bool => "bool" | u8 => "u8" | i8 => "i8" | u16 => "u16" | i16 => "i16" | u32 => "u32"
  | i32 => "i32" | u64 => "u64" | i64 => "i64" | f32 => "f32" | f64 => "f64"
  | string => "string" | bytes => "bytes"

def all : List ScalarKind :=
  [bool, u8, i8, u16, i16, u32, i32, u64, i64, f32, f64, string, bytes]

/-- The kind of a name. -/
def ofName? (name : String) : Option ScalarKind := all.find? (·.name == name)

/-- The kinds that an enumeration may be written in. -/
def isInteger : ScalarKind → Bool
  | u8 | i8 | u16 | i16 | u32 | i32 | u64 | i64 => true
  | bool | f32 | f64 | string | bytes => false

/-- Read a value of this kind. -/
def decode : ScalarKind → Decoder FormatError Scalar
  | bool => Scalar.bool <$> Decoder.bool
  | u8 => Scalar.u8 <$> Decoder.uint8
  | i8 => (Scalar.i8 ·.toInt8) <$> Decoder.uint8
  | u16 => Scalar.u16 <$> Decoder.uint16
  | i16 => (Scalar.i16 ·.toInt16) <$> Decoder.uint16
  | u32 => Scalar.u32 <$> Decoder.uint32
  | i32 => Scalar.i32 <$> Decoder.int32
  | u64 => Scalar.u64 <$> Decoder.uint64
  | i64 => (Scalar.i64 ·.toInt64) <$> Decoder.uint64
  | f32 => (Scalar.f32 ⟨·⟩) <$> Decoder.uint32
  | f64 => (Scalar.f64 ⟨·⟩) <$> Decoder.uint64
  | string => Scalar.string <$> Decoder.text
  | bytes => Scalar.bytes <$> Decoder.blob

end ScalarKind

namespace Scalar

def kind : Scalar → ScalarKind
  | bool _ => .bool | u8 _ => .u8 | i8 _ => .i8 | u16 _ => .u16 | i16 _ => .i16 | u32 _ => .u32
  | i32 _ => .i32 | u64 _ => .u64 | i64 _ => .i64 | f32 _ => .f32 | f64 _ => .f64
  | string _ => .string | bytes _ => .bytes

/-- The bytes of a value. Only a byte string or text too long for its length field has none. -/
def encode : Scalar → Except FormatError Bytes
  | bool v => .ok [if v then 1 else 0]
  | u8 v => .ok [v]
  | i8 v => .ok [v.toUInt8]
  | u16 v => .ok (.ofUInt16 v)
  | i16 v => .ok (.ofUInt16 v.toUInt16)
  | u32 v => .ok (.ofUInt32 v)
  | i32 v => .ok (.ofInt32 v)
  | u64 v => .ok (.ofUInt64 v)
  | i64 v => .ok (.ofUInt64 v.toUInt64)
  | f32 v => .ok (.ofUInt32 v.bits)
  | f64 v => .ok (.ofUInt64 v.bits)
  | string v => Bytes.ofText? v
  | bytes v => Bytes.ofBlob? v

/-- Equality of values, arithmetic on floating-point numbers. -/
def equal : Scalar → Scalar → Bool
  | f32 x, f32 y => x.equal y
  | f64 x, f64 y => x.equal y
  | x, y => x == y

end Scalar

end Lockstep
