import Lockstep.Format.Bytes
import Lockstep.Format.Error

/-! # Decoders

A decoder takes bytes from the front of its input. It hands back what it left also when it fails, so
the point at which a read stopped is part of the answer: a read that finds too few bytes takes none,
and a read made of several parts keeps what its earlier parts took.
-/

namespace Lockstep

/-- A reader of byte strings that returns the bytes it did not take, in success and in failure. -/
abbrev Decoder (ε α : Type) := EStateM ε Bytes α

namespace Decoder

variable {ε ε' α β : Type}

/-- Read another way of failing into the errors of a larger format. -/
def mapError (wrap : ε → ε') (decoder : Decoder ε α) : Decoder ε' α := fun input =>
  match decoder input with
  | .ok value rest => .ok value rest
  | .error error rest => .error (wrap error) rest

/-- The outcome alone, without the rest. -/
def outcome (decoder : Decoder ε α) (input : Bytes) : Except ε α :=
  match decoder input with
  | .ok value _ => .ok value
  | .error error _ => .error error

/-- The bytes that a run leaves. -/
def rest (decoder : Decoder ε α) (input : Bytes) : Bytes :=
  match decoder input with
  | .ok _ rest => rest
  | .error _ rest => rest

/-- The longest byte string or text that may be read. -/
def maxBlobLength : Nat := 16 * 1024 * 1024

/-- The next `count` bytes. -/
def take (count : Nat) : Decoder FormatError Bytes := fun input =>
  let chunk := input.take count
  if chunk.length = count then .ok chunk (input.drop count)
  else .error (.truncated count input.length) input

/-- A number of `width` bytes. -/
def nat (width : Nat) : Decoder FormatError Nat := Bytes.toNat <$> take width

def uint8 : Decoder FormatError UInt8 := UInt8.ofNat <$> nat 1

def uint16 : Decoder FormatError UInt16 := UInt16.ofNat <$> nat 2

def uint32 : Decoder FormatError UInt32 := UInt32.ofNat <$> nat 4

def uint64 : Decoder FormatError UInt64 := UInt64.ofNat <$> nat 8

def int32 : Decoder FormatError Int32 := UInt32.toInt32 <$> uint32

/-- A truth value: the byte 0 or 1. -/
def bool : Decoder FormatError Bool := do
  match ← uint8 with
  | 0 => pure false
  | 1 => pure true
  | byte => throw (.invalidBool byte)

/-- A count of at most 65535. -/
def count : Decoder FormatError Nat := UInt16.toNat <$> uint16

/-- A byte string after its length. -/
def blob : Decoder FormatError Bytes := do
  let length ← nat 4
  if maxBlobLength < length then throw (.lengthOverflow length maxBlobLength)
  take length

/-- A text after its length in bytes. -/
def text : Decoder FormatError String := do
  match (← blob).toString? with
  | some text => pure text
  | none => throw .invalidText

/-- All bytes that are left. -/
def remainder : Decoder ε Bytes := fun input => .ok input []

/-- Refuse bytes that are left. -/
def finish : Decoder FormatError Unit := fun input =>
  match input with
  | [] => .ok () []
  | _ => .error (.trailingBytes input.length) input

/-- Read values one after another in front of those already read, the latest first. -/
def repeatOnto (decoder : Decoder ε α) : Nat → List α → Decoder ε (List α)
  | 0, values => pure values
  | count + 1, values => do
    let value ← decoder
    repeatOnto decoder count (value :: values)

/-- Read a fixed number of values. -/
def replicate (count : Nat) (decoder : Decoder ε α) : Decoder ε (List α) :=
  List.reverse <$> repeatOnto decoder count []

/-- Read all of the input as one value. -/
def decode (decoder : Decoder FormatError α) (input : Bytes) : Except FormatError α :=
  outcome (do let value ← decoder; finish; pure value) input

end Decoder

namespace Bytes

/-- A count of at most 65535. -/
def ofCount? (count : Nat) : Except FormatError Bytes :=
  if count ≤ 65535 then .ok (ofNat 2 count) else .error (.lengthOverflow count 65535)

/-- A byte string after its length. -/
def ofBlob? (blob : Bytes) : Except FormatError Bytes :=
  if blob.length < UInt32.size then .ok (ofNat 4 blob.length ++ blob)
  else .error (.lengthOverflow blob.length (UInt32.size - 1))

/-- A text after its length in bytes. -/
def ofText? (text : String) : Except FormatError Bytes := ofBlob? (ofString text)

end Bytes

end Lockstep
