import Lockstep.Command.Frame
import Lockstep.Random.Stream

/-! # Journals

A journal records what one scope simulated: where its random stream stood at the start and, for each
tick, the commands that ran and where the stream stood after them. Its bytes are a header followed
by the frames one after another, so a journal that is cut short still holds its first frames.
-/

namespace Lockstep

/-- One simulated tick. The commands carry the tick and the scope of their journal. -/
structure JournalFrame where
  tick : Tick
  commands : List Command
  state : StreamState
  deriving DecidableEq, Repr

/-- The record of one scope. -/
structure Journal where
  scope : ScopeId
  initial : StreamState
  frames : List JournalFrame := []
  deriving DecidableEq, Repr

/-- Why bytes are no journal. -/
inductive JournalError where
  | invalidMagic
  | unsupportedVersion (found : UInt8)
  | format (error : FormatError)
  deriving DecidableEq, Repr

namespace JournalError

/-- The text shown for bytes that are no journal. -/
def message : JournalError → String
  | invalidMagic => "invalid journal magic"
  | unsupportedVersion found => "unsupported journal version " ++ toString found.toNat
  | format error => error.message

/-- The name of an error in reports. -/
def kind : JournalError → String
  | invalidMagic => "InvalidMagic"
  | unsupportedVersion _ => "UnsupportedVersion"
  | format error => "Wire." ++ error.kind

instance : Reported JournalError := ⟨JournalError.kind, JournalError.message⟩

end JournalError

namespace StreamState

/-- Seed, then the low and the high half of the position. -/
def encode (state : StreamState) : Bytes :=
  .ofUInt64 state.seed ++
    (.ofUInt64 (UInt64.ofNat state.wordPos) ++ .ofUInt64 (UInt64.ofNat (state.wordPos / UInt64.size)))

def decode : Decoder FormatError StreamState := do
  let seed ← Decoder.uint64
  let low ← Decoder.uint64
  let high ← Decoder.uint64
  return { seed, wordPos := low.toNat + UInt64.size * high.toNat }

end StreamState

namespace JournalFrame

/-- Handler and payload of a command. -/
def encodeCommand (command : Command) : Except FormatError Bytes := do
  let payload ← Bytes.ofBlob? command.payload
  return .ofUInt32 command.handler ++ payload

/-- Tick, the commands after their number, and the state. -/
def encode (frame : JournalFrame) : Except FormatError Bytes := do
  let commands ← frame.commands.mapM encodeCommand
  return .ofUInt32 frame.tick ++
    (.ofUInt32 (UInt32.ofNat frame.commands.length) ++ (commands.flatten ++ frame.state.encode))

def decodeCommand (scope : ScopeId) (tick : Tick) : Decoder FormatError Command := do
  let handler ← Decoder.uint32
  let payload ← Decoder.blob
  return { handler, tick, scope, payload }

/-- Read one frame of a scope's journal. -/
def decode (scope : ScopeId) : Decoder FormatError JournalFrame := do
  let tick ← Decoder.uint32
  let count ← Decoder.nat 4
  let commands ← Decoder.replicate count (decodeCommand scope tick)
  let state ← StreamState.decode
  return { tick, commands, state }

end JournalFrame

namespace Journal

/-- The four bytes that every journal starts with. -/
def magic : Bytes := [0x54, 0x44, 0x4d, 0x4a]

/-- The version of the format, which follows them. -/
def version : UInt8 := 1

/-- The bytes before the first frame. -/
def header (scope : ScopeId) (initial : StreamState) : Bytes :=
  magic ++ (version :: (Bytes.ofInt32 scope.toWire ++ initial.encode))

def encode (journal : Journal) : Except FormatError Bytes := do
  let frames ← journal.frames.mapM JournalFrame.encode
  return header journal.scope journal.initial ++ frames.flatten

end Journal

end Lockstep
