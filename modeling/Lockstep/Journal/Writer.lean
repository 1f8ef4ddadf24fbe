import Lockstep.Format.Script
import Lockstep.Journal.Basic

/-! # Writing journals

A writer collects the ticks of a scope as they are simulated. A tick is put down piece by piece: one
with a payload that is too long for its length field fails at that payload, and what has been put down
before it stays.
-/

namespace Lockstep

namespace JournalFrame

open ByteWriter.Step

/-- Put down a command: its handler, then its payload. -/
def writeCommand (command : Command) : ByteWriter.Step := do
  append (.ofUInt32 command.handler)
  blob command.payload

def writeCommands : List Command → ByteWriter.Step
  | [] => return
  | command :: commands => do
    writeCommand command
    writeCommands commands

/-- Put down a tick. -/
def write (frame : JournalFrame) : ByteWriter.Step := do
  append (.ofUInt32 frame.tick)
  append (.ofUInt32 (UInt32.ofNat frame.commands.length))
  writeCommands frame.commands
  append frame.state.encode

/-- What is there after a tick has been put down, to its end or not. -/
def putDown (written : ByteWriter) (frame : JournalFrame) : ByteWriter :=
  match frame.write.run written with
  | .ok () after | .error _ after => after

end JournalFrame

/-- A journal being written: its ticks so far, the latest first. -/
structure JournalWriter where
  scope : ScopeId
  initial : StreamState
  recorded : List JournalFrame := []
  deriving DecidableEq, Repr

namespace JournalWriter

/-- Add a tick. -/
def record (writer : JournalWriter) (frame : JournalFrame) : JournalWriter :=
  { writer with recorded := frame :: writer.recorded }

/-- The bytes of what has been written. -/
def bytes (writer : JournalWriter) : Bytes :=
  let start : ByteWriter := { bytes := Journal.header writer.scope writer.initial }
  (writer.recorded.reverse.foldl JournalFrame.putDown start).bytes

end JournalWriter

end Lockstep
