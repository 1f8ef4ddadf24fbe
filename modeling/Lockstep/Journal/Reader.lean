import Lockstep.Journal.Basic

/-! # Reading journals

A reader checks the header and then hands out frame by frame what the bytes hold, until they end or a
frame is bad. What came before a bad frame has been handed out already.
-/

namespace Lockstep

/-- An opened journal: its header, and the bytes of the frames not yet read. -/
structure JournalReader where
  scope : ScopeId
  initial : StreamState
  rest : Bytes
  deriving DecidableEq, Repr

namespace JournalReader

/-- The header of a journal after its first four bytes. -/
def headerDecoder : Decoder JournalError (ScopeId × StreamState) := do
  let version ← Decoder.uint8.mapError .format
  if version ≠ Journal.version then throw (.unsupportedVersion version)
  let scope ← Decoder.scope.mapError .format
  let initial ← StreamState.decode.mapError .format
  return (scope, initial)

/-- Open a journal. -/
def openJournal (bytes : Bytes) : Except JournalError JournalReader :=
  if bytes.take 4 = Journal.magic then
    match headerDecoder (bytes.drop 4) with
    | .ok (scope, initial) rest => .ok { scope, initial, rest }
    | .error error _ => .error error
  else .error .invalidMagic

/-- The next frame, or none at the end. -/
def next (reader : JournalReader) : Except FormatError (Option (JournalFrame × JournalReader)) :=
  if reader.rest.isEmpty then .ok none
  else match JournalFrame.decode reader.scope reader.rest with
    | .ok frame rest => .ok (some (frame, { reader with rest }))
    | .error error _ => .error error

/-- The frames of bytes up to their end or to a bad one, and what was wrong with that. Every frame takes
bytes, so their number bounds the steps. -/
def framesWithin (scope : ScopeId) : Nat → Bytes → List JournalFrame × Option FormatError
  | 0, _ => ([], none)
  | steps + 1, bytes =>
    if bytes.isEmpty then ([], none)
    else match JournalFrame.decode scope bytes with
      | .ok frame rest =>
        let (frames, error) := framesWithin scope steps rest
        (frame :: frames, error)
      | .error error _ => ([], some error)

/-- All frames that can be read, and the error that ends them, if one does. -/
def frames (reader : JournalReader) : List JournalFrame × Option FormatError :=
  framesWithin reader.scope reader.rest.length reader.rest

end JournalReader

end Lockstep
