import Lockstep.Format.Context
import Lockstep.Format.Scalar

/-! # Scripts of reads and writes

A writer collects items one after another; a cursor reads kinds one after another from one input.
Both carry a context, which does not enter the bytes.
-/

namespace Lockstep

/-- One thing to write. -/
inductive WireItem where
  | scalar (value : Scalar)
  | count (value : Nat)
  | raw (bytes : Bytes)
  deriving DecidableEq, Repr

/-- One thing to read. -/
inductive WireKind where
  | scalar (kind : ScalarKind)
  | count
  /-- All that is left. -/
  | remainder
  deriving DecidableEq, Repr

namespace WireItem

def encode : WireItem → Except FormatError Bytes
  | scalar value => value.encode
  | count value => Bytes.ofCount? value
  | raw bytes => .ok bytes

end WireItem

namespace WireKind

def decode : WireKind → Decoder FormatError WireItem
  | scalar kind => WireItem.scalar <$> kind.decode
  | count => WireItem.count <$> Decoder.count
  | remainder => WireItem.raw <$> Decoder.remainder

end WireKind

/-- Bytes written so far. -/
structure ByteWriter where
  bytes : Bytes := []
  context : WireContext := {}
  deriving Repr, Inhabited

namespace ByteWriter

/-- A step of writing. What was appended before a step failed stays appended. -/
abbrev Step := EStateM FormatError ByteWriter Unit

namespace Step

def append (bytes : Bytes) : Step :=
  modify fun writer => { writer with bytes := writer.bytes ++ bytes }

/-- A count of at most 65535. -/
def count (n : Nat) : Step := do
  if 65535 < n then throw (.lengthOverflow n 65535)
  append (.ofNat 2 n)

/-- A byte string after its length. -/
def blob (blob : Bytes) : Step := do
  if UInt32.size ≤ blob.length then throw (.lengthOverflow blob.length (UInt32.size - 1))
  append (.ofNat 4 blob.length)
  append blob

/-- A value. Numbers are written at once, byte strings and texts in two steps. -/
def scalar : Scalar → Step
  | .string text => blob (.ofString text)
  | .bytes bytes => blob bytes
  | number => do
    match number.encode with
    | .ok bytes => append bytes
    | .error error => throw error

def item : WireItem → Step
  | .scalar value => scalar value
  | .count n => count n
  | .raw bytes => append bytes

end Step

/-- Write an item; the writer is also there when it cannot be written. -/
def write (writer : ByteWriter) (item : WireItem) : Except FormatError Unit × ByteWriter :=
  match (Step.item item).run writer with
  | .ok () after => (.ok (), after)
  | .error error after => (.error error, after)

end ByteWriter

/-- An input and the part of it that has not been read. -/
structure ByteCursor where
  total : Nat
  rest : Bytes
  context : WireContext := {}
  deriving Repr

namespace ByteCursor

/-- Start at the first byte. -/
def ofBytes (input : Bytes) (context : WireContext := {}) : ByteCursor := ⟨input.length, input, context⟩

def remaining (cursor : ByteCursor) : Nat := cursor.rest.length

def position (cursor : ByteCursor) : Nat := cursor.total - cursor.remaining

/-- Run a decoder at the cursor; the cursor moves also when the decoder fails. -/
def read {ε α : Type} (cursor : ByteCursor) (decoder : Decoder ε α) : Except ε α × ByteCursor :=
  match decoder cursor.rest with
  | .ok value rest => (.ok value, { cursor with rest })
  | .error error rest => (.error error, { cursor with rest })

end ByteCursor

end Lockstep
