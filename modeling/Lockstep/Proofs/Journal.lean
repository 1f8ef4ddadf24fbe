import Lockstep.Journal.Reader
import Lockstep.Journal.Writer
import Lockstep.Proofs.Drift
import Lockstep.Proofs.Format.Script

/-! # Reading journals back

A journal whose frames fit the format comes back frame by frame, with every command stamped for the
tick in which it ran (`JournalWriter.openJournal_bytes`). A frame fits if its payloads are no longer than
what can be read and its commands no more than can be counted. A frame with a payload that is too long
to be written is put down up to that payload (`JournalFrame.putDown_of_long`).
-/

namespace Lockstep

open Decoder

/-- Two words hold the position of a stream. -/
theorem StreamState.reads {state : StreamState}
    (fits : state.wordPos < UInt64.size * UInt64.size) : Reads decode state.encode state := by
  have low : (UInt64.ofNat state.wordPos).toNat = state.wordPos % UInt64.size :=
    UInt64.toNat_ofNat'
  have high : (UInt64.ofNat (state.wordPos / UInt64.size)).toNat = state.wordPos / UInt64.size :=
    UInt64.toNat_ofNat_of_lt' (Nat.div_lt_of_lt_mul fits)
  have read : Reads decode state.encode {
      seed := state.seed
      wordPos := (UInt64.ofNat state.wordPos).toNat +
        UInt64.size * (UInt64.ofNat (state.wordPos / UInt64.size)).toNat } :=
    (reads_uint64 state.seed).bind ((reads_uint64 _).bind ((reads_uint64 _).bind_last (.pure _)))
  rwa [low, high, Nat.mod_add_div] at read

/-- A stream never leaves its period, which two words can hold. -/
theorem RandomStream.state_fits (stream : RandomStream) :
    stream.state.wordPos < UInt64.size * UInt64.size :=
  Nat.lt_trans stream.inRange (by decide)

namespace JournalFrame

/-- A frame that can be read back. -/
structure Fits (frame : JournalFrame) : Prop where
  short : ∀ command ∈ frame.commands, command.payload.length ≤ maxBlobLength
  few : frame.commands.length < UInt32.size
  inRange : frame.state.wordPos < UInt64.size * UInt64.size

/-- The frame with every command stamped for its tick. -/
def restamp (scope : ScopeId) (frame : JournalFrame) : JournalFrame :=
  { frame with commands := frame.commands.map fun command =>
      { command with tick := frame.tick, scope } }

/-- The bytes of a command in a frame, if its length fits. -/
def commandBytes (command : Command) : Bytes :=
  .ofUInt32 command.handler ++ (.ofNat 4 command.payload.length ++ command.payload)

/-- The bytes of a frame, if it fits. -/
def bytes (frame : JournalFrame) : Bytes :=
  .ofUInt32 frame.tick ++ (.ofUInt32 (UInt32.ofNat frame.commands.length) ++
    (frame.commands.flatMap commandBytes ++ frame.state.encode))

theorem encodeCommand_of_lt {command : Command} (fits : command.payload.length < UInt32.size) :
    encodeCommand command = .ok (commandBytes command) := by
  rw [encodeCommand, Bytes.ofBlob?, if_pos fits]
  rfl

/-- A frame can be written whenever the lengths of its payloads fit into their fields. -/
theorem encode_of_lt {frame : JournalFrame}
    (fits : ∀ command ∈ frame.commands, command.payload.length < UInt32.size) :
    frame.encode = .ok frame.bytes := by
  have commands : frame.commands.mapM encodeCommand = .ok (frame.commands.map commandBytes) := by
    generalize frame.commands = commands at fits
    induction commands with
    | nil => rfl
    | cons command commands ih =>
      obtain ⟨first, rest⟩ := List.forall_mem_cons.mp fits
      rw [List.mapM_cons, encodeCommand_of_lt first, ih rest]
      rfl
  rw [encode, commands, bytes, List.flatMap_def]
  rfl

/-- Only such a frame has an encoding. -/
theorem lt_of_encode {frame : JournalFrame} {encoded : Bytes} (succeeded : frame.encode = .ok encoded) :
    ∀ command ∈ frame.commands, command.payload.length < UInt32.size := by
  obtain ⟨parts, each, -⟩ := bind_eq_ok.mp succeeded
  generalize frame.commands = commands at each
  induction commands generalizing parts with
  | nil => exact List.forall_mem_nil _
  | cons command commands ih =>
    rw [List.mapM_cons] at each
    obtain ⟨_, first, each⟩ := bind_eq_ok.mp each
    obtain ⟨_, rest, -⟩ := bind_eq_ok.mp each
    obtain ⟨_, payload, -⟩ := bind_eq_ok.mp first
    exact List.forall_mem_cons.mpr ⟨(guard_eq_ok.mp payload).1, ih _ rest⟩

theorem parts_of_encode {frames : List JournalFrame} {parts : List Bytes}
    (succeeded : frames.mapM encode = .ok parts) :
    (∀ frame ∈ frames, ∀ command ∈ frame.commands, command.payload.length < UInt32.size) ∧
      parts = frames.map bytes := by
  induction frames generalizing parts with
  | nil =>
    cases succeeded
    exact ⟨nofun, rfl⟩
  | cons frame frames ih =>
    rw [List.mapM_cons] at succeeded
    obtain ⟨own, first, succeeded⟩ := bind_eq_ok.mp succeeded
    obtain ⟨others, rest, succeeded⟩ := bind_eq_ok.mp succeeded
    cases succeeded
    have countable := lt_of_encode first
    obtain ⟨all, rfl⟩ := ih rest
    rw [encode_of_lt countable] at first
    cases first
    exact ⟨List.forall_mem_cons.mpr ⟨countable, all⟩, rfl⟩

/-- What can be read fits into its field. -/
theorem Fits.countable {frame : JournalFrame} (fits : frame.Fits) :
    ∀ command ∈ frame.commands, command.payload.length < UInt32.size :=
  fun command member => Nat.lt_of_le_of_lt (fits.short command member) (by decide)

/-! ## Putting frames down -/

variable {frame : JournalFrame} {command : Command} {commands : List Command}

theorem run_writeCommand (fits : command.payload.length < UInt32.size) (writer : ByteWriter) :
    (writeCommand command).run writer =
      .ok () { writer with bytes := writer.bytes ++ commandBytes command } := by
  have payload := ByteWriter.Step.writes_blob command.payload
    { writer with bytes := writer.bytes ++ .ofUInt32 command.handler }
  rw [Bytes.ofBlob?, if_pos fits] at payload
  rw [commandBytes, ← List.append_assoc]
  exact payload

/-- The handler of a command with a payload that is too long is put down. -/
theorem run_writeCommand_of_long (long : UInt32.size ≤ command.payload.length) (writer : ByteWriter) :
    (writeCommand command).run writer =
      .error (.lengthOverflow command.payload.length (UInt32.size - 1))
        { writer with bytes := writer.bytes ++ .ofUInt32 command.handler } := by
  have payload := ByteWriter.Step.writes_blob command.payload
    { writer with bytes := writer.bytes ++ .ofUInt32 command.handler }
  rw [Bytes.ofBlob?, if_neg (Nat.not_lt.mpr long)] at payload
  exact payload

/-- Commands that fit are put down, and those behind them follow. -/
theorem run_writeCommands_append (fits : ∀ command ∈ commands, command.payload.length < UInt32.size)
    (others : List Command) (writer : ByteWriter) :
    (writeCommands (commands ++ others)).run writer =
      (writeCommands others).run
        { writer with bytes := writer.bytes ++ commands.flatMap commandBytes } := by
  induction commands generalizing writer with
  | nil => rw [List.nil_append, List.flatMap_nil, List.append_nil]
  | cons command commands ih =>
    obtain ⟨first, rest⟩ := List.forall_mem_cons.mp fits
    rw [List.cons_append, writeCommands, EStateM.run_bind, run_writeCommand first, List.flatMap_cons,
      ← List.append_assoc]
    exact ih rest _

theorem run_write (frame : JournalFrame) (writer : ByteWriter) :
    frame.write.run writer =
      (writeCommands frame.commands >>= fun _ => ByteWriter.Step.append frame.state.encode).run
        { writer with bytes := writer.bytes ++ (.ofUInt32 frame.tick ++
          .ofUInt32 (UInt32.ofNat frame.commands.length)) } := by
  rw [← List.append_assoc]
  rfl

/-- A frame whose payloads fit into their fields is put down whole. -/
theorem putDown_of_lt (fits : ∀ command ∈ frame.commands, command.payload.length < UInt32.size)
    (written : ByteWriter) :
    putDown written frame = { written with bytes := written.bytes ++ frame.bytes } := by
  have commands := run_writeCommands_append fits []
  rw [List.append_nil] at commands
  rw [putDown, run_write, EStateM.run_bind, commands, bytes]
  simp only [← List.append_assoc]
  rfl

/-- Of any other frame what comes before the first payload that is too long is put down. -/
theorem putDown_of_long {before after : List Command}
    (parts : frame.commands = before ++ command :: after)
    (fits : ∀ command ∈ before, command.payload.length < UInt32.size)
    (long : UInt32.size ≤ command.payload.length) (written : ByteWriter) :
    putDown written frame = { written with bytes := written.bytes ++ (.ofUInt32 frame.tick ++
      (.ofUInt32 (UInt32.ofNat frame.commands.length) ++
        (before.flatMap commandBytes ++ .ofUInt32 command.handler))) } := by
  have commands := run_writeCommands_append fits (command :: after)
  rw [← parts] at commands
  rw [putDown, run_write, EStateM.run_bind, commands, writeCommands, EStateM.run_bind,
    run_writeCommand_of_long long]
  simp only [List.append_assoc]

theorem reads_command (scope : ScopeId) (tick : Tick) {command : Command}
    (short : command.payload.length ≤ maxBlobLength) :
    Reads (decodeCommand scope tick) (commandBytes command) { command with tick, scope } :=
  (reads_uint32 command.handler).bind
    ((reads_blob (if_pos (Nat.lt_of_le_of_lt short (by decide))) short).bind_last (.pure _))

theorem reads_length {frame : JournalFrame} (few : frame.commands.length < UInt32.size) :
    Reads (Decoder.nat 4) (.ofUInt32 (UInt32.ofNat frame.commands.length)) frame.commands.length := by
  rw [Bytes.ofUInt32, UInt32.toNat_ofNat_of_lt' few]
  exact reads_nat few

theorem Fits.reads {frame : JournalFrame} (fits : frame.Fits) (scope : ScopeId) :
    Reads (decode scope) frame.bytes (frame.restamp scope) := by
  have commands := reads_replicate fun command member =>
    reads_command scope frame.tick (fits.short command member)
  exact (reads_uint32 frame.tick).bind ((reads_length fits.few).bind (commands.bind
    ((StreamState.reads fits.inRange).bind_last (.pure (frame.restamp scope)))))

/-- A frame with a payload that is too long can be written, but not read. -/
theorem refuses_of_long {frame : JournalFrame} (scope : ScopeId)
    (countable : ∀ command ∈ frame.commands, command.payload.length < UInt32.size)
    (few : frame.commands.length < UInt32.size)
    (long : ∃ command ∈ frame.commands, maxBlobLength < command.payload.length) :
    Refuses (decode scope) frame.bytes := by
  have refused {command : Command} (member : command ∈ frame.commands)
      (long : maxBlobLength < command.payload.length) :
      Refuses (decodeCommand scope frame.tick) (commandBytes command) :=
    (reads_uint32 command.handler).bind_refuses
      ((refuses_blob (if_pos (countable command member)) long).bind _)
  have commands : Refuses (Decoder.replicate frame.commands.length (decodeCommand scope frame.tick))
      (frame.commands.flatMap commandBytes) := by
    refine refuses_replicate (fun command member => ?_) ?_
    · by_cases short : command.payload.length ≤ maxBlobLength
      · exact .inl ⟨_, reads_command scope frame.tick short⟩
      · exact .inr (refused member (Nat.lt_of_not_le short))
    · obtain ⟨command, member, long⟩ := long
      exact ⟨command, member, refused member long⟩
  exact (reads_uint32 frame.tick).bind_refuses ((reads_length few).bind_refuses
    ((commands.bind _).append frame.state.encode))

theorem length_bytes_pos (frame : JournalFrame) : 0 < frame.bytes.length := by
  rw [bytes, List.length_append, Bytes.ofUInt32, Bytes.length_ofNat]
  omega

end JournalFrame

namespace JournalReader

/-- Frames that fit are read one after another. -/
theorem framesWithin_bytes (scope : ScopeId) {frames : List JournalFrame}
    (fits : ∀ frame ∈ frames, frame.Fits) {steps : Nat} (enough : frames.length ≤ steps) :
    framesWithin scope steps (frames.flatMap JournalFrame.bytes) =
      (frames.map (·.restamp scope), none) := by
  induction frames generalizing steps with
  | nil => cases steps <;> rfl
  | cons frame frames ih =>
    obtain ⟨first, rest⟩ := List.forall_mem_cons.mp fits
    cases steps with
    | zero => cases enough
    | succ steps =>
      have filled : (frame.bytes ++ frames.flatMap JournalFrame.bytes).isEmpty = false := by
        refine List.isEmpty_eq_false_iff.mpr fun empty => ?_
        have nothing := frame.length_bytes_pos
        rw [(List.append_eq_nil_iff.mp empty).1] at nothing
        cases nothing
      rw [List.flatMap_cons, framesWithin, filled, if_neg Bool.false_ne_true,
        first.reads scope (frames.flatMap JournalFrame.bytes)]
      simp only [ih rest (Nat.le_of_succ_le_succ enough)]
      rfl

/-- What can be read in front of the rest is the first frame. -/
theorem frames_of_read {reader : JournalReader} {frame : JournalFrame} {left : Bytes}
    (read : JournalFrame.decode reader.scope reader.rest = .ok frame left) :
    ∃ frames error, reader.frames = (frame :: frames, error) := by
  obtain ⟨scope, initial, bytes⟩ := reader
  cases bytes with
  | nil => cases read
  | cons byte bytes =>
    refine ⟨(framesWithin scope bytes.length left).1, (framesWithin scope bytes.length left).2, ?_⟩
    rw [frames, List.length_cons, framesWithin, if_neg (by simp), read]

/-- What cannot be read is an error, and no frame. -/
theorem frames_of_error {reader : JournalReader} {error : FormatError} {left : Bytes}
    (filled : reader.rest ≠ [])
    (failed : JournalFrame.decode reader.scope reader.rest = .error error left) :
    reader.frames = ([], some error) := by
  obtain ⟨scope, initial, bytes⟩ := reader
  cases bytes with
  | nil => exact absurd rfl filled
  | cons byte bytes => rw [frames, List.length_cons, framesWithin, if_neg (by simp), failed]

theorem length_le_bytes (frames : List JournalFrame) :
    frames.length ≤ (frames.flatMap JournalFrame.bytes).length := by
  induction frames with
  | nil => exact Nat.le_refl 0
  | cons frame frames ih =>
    have filled := frame.length_bytes_pos
    rw [List.flatMap_cons, List.length_append, List.length_cons]
    omega

/-- The header of a journal is read back. -/
theorem openJournal_header {scope : ScopeId} (representable : scope.isRepresentable = true)
    {initial : StreamState} (fits : initial.wordPos < UInt64.size * UInt64.size) (rest : Bytes) :
    openJournal (Journal.header scope initial ++ rest) = .ok { scope, initial, rest } := by
  have header : Reads headerDecoder (Journal.version :: (Bytes.ofInt32 scope.toWire ++ initial.encode))
      (scope, initial) := by
    refine ((reads_uint8 Journal.version).mapError JournalError.format).bind ?_
    rw [if_neg (not_not_intro rfl)]
    exact ((reads_scope representable).mapError _).bind
      (((StreamState.reads fits).mapError _).bind_last (.pure (scope, initial)))
  rw [openJournal, Journal.header, List.append_assoc, List.take_append_of_le_length (by decide),
    if_pos (by rfl), List.drop_append_of_le_length (by decide)]
  have opened : headerDecoder (List.drop 4 Journal.magic ++
      (Journal.version :: (Bytes.ofInt32 scope.toWire ++ initial.encode) ++ rest)) =
        .ok (scope, initial) rest := header rest
  simp only [opened]

end JournalReader

namespace JournalWriter

/-- The bytes of frames whose payloads fit into their fields are a header and theirs. -/
theorem bytes_of_lt {writer : JournalWriter}
    (fits : ∀ frame ∈ writer.recorded, ∀ command ∈ frame.commands,
      command.payload.length < UInt32.size) :
    writer.bytes = Journal.header writer.scope writer.initial ++
      writer.recorded.reverse.flatMap JournalFrame.bytes := by
  have each : ∀ frame ∈ writer.recorded.reverse, ∀ command ∈ frame.commands,
      command.payload.length < UInt32.size := fun frame member => fits frame (List.mem_reverse.mp member)
  rw [bytes]
  generalize Journal.header writer.scope writer.initial = front
  generalize writer.recorded.reverse = frames at each
  induction frames generalizing front with
  | nil => exact (List.append_nil front).symm
  | cons frame frames ih =>
    obtain ⟨first, rest⟩ := List.forall_mem_cons.mp each
    rw [List.foldl_cons, JournalFrame.putDown_of_lt first, List.flatMap_cons, ← List.append_assoc]
    exact ih _ rest

/-- A writer puts a journal down as it is encoded. -/
theorem bytes_of_encode {journal : Journal} {encoded : Bytes} (succeeded : journal.encode = .ok encoded) :
    bytes ⟨journal.scope, journal.initial, journal.frames.reverse⟩ = encoded := by
  obtain ⟨parts, each, done⟩ := bind_eq_ok.mp succeeded
  cases done
  obtain ⟨countable, rfl⟩ := JournalFrame.parts_of_encode each
  rw [bytes_of_lt fun frame member => countable frame (List.mem_reverse.mp member), List.reverse_reverse,
    List.flatMap_def]

theorem bytes_of_fits {writer : JournalWriter} (fits : ∀ frame ∈ writer.recorded, frame.Fits) :
    writer.bytes = Journal.header writer.scope writer.initial ++
      writer.recorded.reverse.flatMap JournalFrame.bytes :=
  bytes_of_lt fun frame member => (fits frame member).countable

/-- What a writer has written comes back, every command stamped for its tick. -/
theorem openJournal_bytes {writer : JournalWriter}
    (representable : writer.scope.isRepresentable = true)
    (inRange : writer.initial.wordPos < UInt64.size * UInt64.size)
    (fits : ∀ frame ∈ writer.recorded, frame.Fits) :
    ∃ reader, JournalReader.openJournal writer.bytes = .ok reader ∧ reader.scope = writer.scope ∧
      reader.initial = writer.initial ∧
      reader.frames = (writer.recorded.reverse.map (·.restamp writer.scope), none) := by
  have each : ∀ frame ∈ writer.recorded.reverse, frame.Fits := fun frame member =>
    fits frame (List.mem_reverse.mp member)
  refine ⟨⟨writer.scope, writer.initial, writer.recorded.reverse.flatMap JournalFrame.bytes⟩, ?_, rfl,
    rfl, ?_⟩
  · rw [bytes_of_fits fits]
    exact JournalReader.openJournal_header representable inRange _
  · exact JournalReader.framesWithin_bytes writer.scope each (JournalReader.length_le_bytes _)

end JournalWriter

end Lockstep
