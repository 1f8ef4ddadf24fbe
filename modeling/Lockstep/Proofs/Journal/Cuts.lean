import Lockstep.Proofs.Format.Truncation
import Lockstep.Proofs.Journal

/-! # Journals that are cut short

The bytes of a journal may end anywhere behind its header, since they are written as the simulation
goes on. What a reader then hands out are the frames that are whole, and it says whether the bytes
end with the last of them or in the middle of another one (`JournalWriter.reads_back_however_cut`).
-/

namespace Lockstep

open Decoder

theorem StreamState.runsOut (state : StreamState) : RunsOut decode state.encode :=
  (runsOut_uint64 _).bind (reads_uint64 _)
    ((runsOut_uint64 _).bind (reads_uint64 _) ((runsOut_uint64 _).bind_last _))

namespace JournalFrame

theorem runsOut_command (scope : ScopeId) (tick : Tick) {command : Command}
    (short : command.payload.length ≤ maxBlobLength) :
    RunsOut (decodeCommand scope tick) (commandBytes command) :=
  (runsOut_uint32 _).bind (reads_uint32 _) ((runsOut_blob short).bind_last _)

/-- A frame runs out wherever it is cut: in a number, in the count, in a command or in the state. -/
theorem Fits.runsOut {frame : JournalFrame} (fits : frame.Fits) (scope : ScopeId) :
    RunsOut (decode scope) frame.bytes := by
  have commands : RunsOut (Decoder.replicate frame.commands.length (decodeCommand scope frame.tick))
      (frame.commands.flatMap commandBytes) :=
    runsOut_replicate (fun _ member => reads_command scope frame.tick (fits.short _ member))
      fun _ member => runsOut_command scope frame.tick (fits.short _ member)
  have read := reads_replicate fun command member =>
    reads_command scope frame.tick (fits.short command member)
  exact (runsOut_uint32 _).bind (reads_uint32 _) ((runsOut_nat 4 _).bind (reads_length fits.few)
    (commands.bind read (frame.state.runsOut.bind_last _)))

/-- How many bytes the first frames take. -/
def extent (frames : List JournalFrame) (count : Nat) : Nat :=
  ((frames.take count).flatMap bytes).length

@[simp]
theorem extent_zero (frames : List JournalFrame) : extent frames 0 = 0 := rfl

@[simp]
theorem extent_cons_succ (frame : JournalFrame) (frames : List JournalFrame) (count : Nat) :
    extent (frame :: frames) (count + 1) = frame.bytes.length + extent frames count := by
  rw [extent, List.take_succ_cons, List.flatMap_cons, List.length_append, extent]

theorem extent_length (frames : List JournalFrame) :
    extent frames frames.length = (frames.flatMap bytes).length := by
  rw [extent, List.take_length]

end JournalFrame

namespace JournalReader

/-- What a reader hands out, call after call: frames, and then none or an error. -/
inductive Hands : JournalReader → List JournalFrame → Option FormatError → Prop where
  | ended {reader : JournalReader} (ended : reader.next = .ok none) : Hands reader [] none
  | failed {reader : JournalReader} {error : FormatError} (failed : reader.next = .error error) :
      Hands reader [] (some error)
  | frame {reader after : JournalReader} {frame : JournalFrame} {frames : List JournalFrame}
      {ending : Option FormatError} (read : reader.next = .ok (some (frame, after)))
      (rest : Hands after frames ending) : Hands reader (frame :: frames) ending

/-- What follows the whole frames if they take `whole` bytes and the bytes end at `cut`: none if that is
behind the last of them, and else an error that says that bytes are missing. -/
inductive EndsAt (whole cut : Nat) : Option FormatError → Prop where
  | behind (same : cut = whole) : EndsAt whole cut none
  | within (inside : cut ≠ whole) (needed available : Nat) :
      EndsAt whole cut (some (.truncated needed available))

/-- The same frames behind other bytes. -/
theorem EndsAt.add_left {whole cut : Nat} {ending : Option FormatError} (ends : EndsAt whole cut ending)
    (before : Nat) : EndsAt (before + whole) (before + cut) ending := by
  cases ends with
  | behind same => exact .behind (congrArg (before + ·) same)
  | within inside => exact .within (fun same => inside (Nat.add_left_cancel same)) _ _

theorem next_of_empty {reader : JournalReader} (empty : reader.rest = []) : reader.next = .ok none := by
  rw [next, empty]
  rfl

theorem next_of_read {reader : JournalReader} {frame : JournalFrame} {left : Bytes}
    (filled : reader.rest ≠ [])
    (read : JournalFrame.decode reader.scope reader.rest = .ok frame left) :
    reader.next = .ok (some (frame, { reader with rest := left })) := by
  rw [next, if_neg (by simpa using filled), read]

theorem next_of_error {reader : JournalReader} {error : FormatError} {left : Bytes}
    (filled : reader.rest ≠ [])
    (failed : JournalFrame.decode reader.scope reader.rest = .error error left) :
    reader.next = .error error := by
  rw [next, if_neg (by simpa using filled), failed]

/-- Of frames that are cut, those before the cut are handed out. -/
theorem hands_cut (scope : ScopeId) (initial : StreamState) {frames : List JournalFrame}
    (fits : ∀ frame ∈ frames, frame.Fits) {cut : Bytes}
    (start : cut <+: frames.flatMap JournalFrame.bytes) :
    ∃ count, (∀ k ≤ frames.length, JournalFrame.extent frames k ≤ cut.length ↔ k ≤ count) ∧
      count ≤ frames.length ∧
      ∃ ending, Hands ⟨scope, initial, cut⟩ ((frames.take count).map (·.restamp scope)) ending ∧
        EndsAt (JournalFrame.extent frames count) cut.length ending := by
  induction frames generalizing cut with
  | nil =>
    obtain rfl := List.prefix_nil.mp start
    exact ⟨0, by simp, Nat.le_refl 0, none, .ended (next_of_empty rfl), .behind rfl⟩
  | cons frame frames ih =>
    obtain ⟨first, rest⟩ := List.forall_mem_cons.mp fits
    rw [List.flatMap_cons] at start
    by_cases inside : cut.length < frame.bytes.length
    · -- The cut lies in the first frame, or in front of it.
      have none_inside : ∀ k ≤ (frame :: frames).length,
          JournalFrame.extent (frame :: frames) k ≤ cut.length ↔ k ≤ 0 := by
        intro k _
        cases k with
        | zero => simp
        | succ k =>
          rw [JournalFrame.extent_cons_succ]
          omega
      refine ⟨0, none_inside, Nat.zero_le _, ?_⟩
      by_cases empty : cut = []
      · subst empty
        exact ⟨none, .ended (next_of_empty rfl), .behind rfl⟩
      · obtain ⟨needed, available, left, failed⟩ := first.runsOut scope
          (List.prefix_of_prefix_length_le start (List.prefix_append _ _) (Nat.le_of_lt inside)) inside
        exact ⟨_, .failed (next_of_error empty failed),
          .within (fun nothing => empty (List.eq_nil_of_length_eq_zero nothing)) _ _⟩
    · -- The first frame is whole, and the cut lies behind it.
      obtain ⟨behind, rfl⟩ := List.prefix_of_prefix_length_le (List.prefix_append _ _) start
        (Nat.not_lt.mp inside)
      obtain ⟨count, those, within, ending, hands, ends⟩ :=
        ih rest ((List.prefix_append_right_inj _).mp start)
      have filled : frame.bytes ++ behind ≠ [] :=
        List.append_ne_nil_of_left_ne_nil (List.ne_nil_of_length_pos frame.length_bytes_pos) _
      refine ⟨count + 1, ?_, Nat.succ_le_succ within, ending,
        .frame (next_of_read filled (first.reads scope behind)) hands, ?_⟩
      · intro k bound
        cases k with
        | zero => simp
        | succ k =>
          rw [JournalFrame.extent_cons_succ, List.length_append, Nat.add_le_add_iff_left,
            Nat.add_le_add_iff_right]
          exact those k (Nat.le_of_succ_le_succ bound)
      · rw [JournalFrame.extent_cons_succ, List.length_append]
        exact ends.add_left _

/-- Frames that are not cut are all handed out. -/
theorem hands_whole (scope : ScopeId) (initial : StreamState) {frames : List JournalFrame}
    (fits : ∀ frame ∈ frames, frame.Fits) :
    Hands ⟨scope, initial, frames.flatMap JournalFrame.bytes⟩ (frames.map (·.restamp scope)) none := by
  obtain ⟨count, those, within, ending, hands, ends⟩ :=
    hands_cut scope initial fits (List.prefix_refl (frames.flatMap JournalFrame.bytes))
  have all := JournalFrame.extent_length frames
  obtain rfl : count = frames.length :=
    Nat.le_antisymm within ((those _ (Nat.le_refl _)).mp (Nat.le_of_eq all))
  rw [List.take_length] at hands
  cases ends with
  | behind => exact hands
  | within inside => exact absurd all.symm inside

/-- Of frames that are cut before their end, fewer are handed out. -/
theorem hands_inside (scope : ScopeId) (initial : StreamState) {frames : List JournalFrame}
    (fits : ∀ frame ∈ frames, frame.Fits) {inside : Nat}
    (short : inside < (frames.flatMap JournalFrame.bytes).length) :
    ∃ count < frames.length, (∀ k ≤ frames.length, JournalFrame.extent frames k ≤ inside ↔ k ≤ count) ∧
      ∃ ending, Hands ⟨scope, initial, (frames.flatMap JournalFrame.bytes).take inside⟩
          ((frames.take count).map (·.restamp scope)) ending ∧
        EndsAt (JournalFrame.extent frames count) inside ending := by
  have length : ((frames.flatMap JournalFrame.bytes).take inside).length = inside := by
    rw [List.length_take, Nat.min_eq_left (Nat.le_of_lt short)]
  obtain ⟨count, those, within, ending, hands, ends⟩ :=
    hands_cut scope initial fits (List.take_prefix inside _)
  rw [length] at those ends
  refine ⟨count, Nat.lt_of_le_of_ne within ?_, those, ending, hands, ends⟩
  rintro rfl
  have all := (those _ (Nat.le_refl _)).mpr (Nat.le_refl _)
  rw [JournalFrame.extent_length] at all
  exact Nat.not_lt.mpr all short

end JournalReader

namespace JournalWriter

/-- A writer after these ticks. -/
def recordAll (writer : JournalWriter) (frames : List JournalFrame) : JournalWriter :=
  frames.foldl record writer

theorem recordAll_eq (writer : JournalWriter) (frames : List JournalFrame) :
    writer.recordAll frames = { writer with recorded := frames.reverse ++ writer.recorded } := by
  induction frames generalizing writer with
  | nil => rfl
  | cons frame frames ih =>
    rw [recordAll, List.foldl_cons, ← recordAll, ih, List.reverse_cons, List.append_assoc]
    rfl

/-- The bytes of a writer after ticks that fit. -/
theorem bytes_recordAll (scope : ScopeId) (initial : StreamState) {frames : List JournalFrame}
    (fits : ∀ frame ∈ frames, frame.Fits) :
    (recordAll { scope, initial } frames).bytes =
      Journal.header scope initial ++ frames.flatMap JournalFrame.bytes := by
  rw [recordAll_eq, List.append_nil, bytes_of_fits fun frame member =>
    fits frame (List.mem_reverse.mp member), List.reverse_reverse]

theorem length_bytes_recordAll (scope : ScopeId) (initial : StreamState) {frames : List JournalFrame}
    (fits : ∀ frame ∈ frames, frame.Fits) (count : Nat) :
    (recordAll { scope, initial } (frames.take count)).bytes.length =
      (Journal.header scope initial).length + JournalFrame.extent frames count := by
  rw [bytes_recordAll scope initial fun frame member => fits frame (List.mem_of_mem_take member),
    List.length_append, JournalFrame.extent]

/-- A journal reads back: the scope and the state at the start, every frame with its commands stamped for
its tick and for the scope, and then none. If its bytes end anywhere behind the header, the frames that
are whole are read, and then either none, if the bytes end with a frame, or that bytes are missing. -/
theorem reads_back_however_cut {scope : ScopeId} (representable : scope.isRepresentable = true)
    {initial : StreamState} (inRange : initial.wordPos < UInt64.size * UInt64.size)
    {frames : List JournalFrame} (fits : ∀ frame ∈ frames, frame.Fits) :
    let written := fun count => (recordAll { scope, initial } (frames.take count)).bytes
    (∃ reader, JournalReader.openJournal (written frames.length) = .ok reader ∧
      reader.scope = scope ∧ reader.initial = initial ∧
      reader.Hands (frames.map (·.restamp scope)) none) ∧
    ∀ cut, (written 0).length ≤ cut → cut < (written frames.length).length →
      ∃ reader, JournalReader.openJournal ((written frames.length).take cut) = .ok reader ∧
        reader.scope = scope ∧ reader.initial = initial ∧
        ∃ count < frames.length, (∀ k ≤ frames.length, (written k).length ≤ cut ↔ k ≤ count) ∧
          ∃ ending, reader.Hands ((frames.take count).map (·.restamp scope)) ending ∧
            JournalReader.EndsAt (written count).length cut ending := by
  intro written
  have length : ∀ count, (written count).length =
      (Journal.header scope initial).length + JournalFrame.extent frames count :=
    length_bytes_recordAll scope initial fits
  have whole : written frames.length =
      Journal.header scope initial ++ frames.flatMap JournalFrame.bytes := by
    rw [← bytes_recordAll scope initial fits]
    exact congrArg (fun frames => (recordAll { scope, initial } frames).bytes) frames.take_length
  have opened := JournalReader.openJournal_header representable inRange
  constructor
  · exact ⟨_, whole ▸ opened _, rfl, rfl, JournalReader.hands_whole scope initial fits⟩
  · intro cut behind before
    rw [length, JournalFrame.extent_zero, Nat.add_zero] at behind
    obtain ⟨inside, rfl⟩ := Nat.exists_eq_add_of_le behind
    have short : inside < (frames.flatMap JournalFrame.bytes).length := by
      rw [whole, List.length_append] at before
      exact Nat.lt_of_add_lt_add_left before
    obtain ⟨count, fewer, those, ending, hands, ends⟩ :=
      JournalReader.hands_inside scope initial fits short
    refine ⟨_, ?_, rfl, rfl, count, fewer, ?_, ending, hands, ?_⟩
    · rw [whole, List.take_length_add_append]
      exact opened _
    · intro k bound
      rw [length, Nat.add_le_add_iff_left]
      exact those k bound
    · rw [length]
      exact ends.add_left _

/-- An idle tick, and one with two commands. -/
def idleThenBusy : List JournalFrame :=
  [⟨1, [], ⟨5, 16⟩⟩, ⟨2, [⟨4, 2, .map 3, [1, 2]⟩, ⟨0, 2, .map 3, []⟩], ⟨5, 2 ^ 70⟩⟩]

theorem busy_tick_is_cut :
    ∃ reader, JournalReader.openJournal ((recordAll { scope := .map 3, initial := ⟨5, 0⟩ }
        idleThenBusy).bytes.take 80) = .ok reader ∧
      ∃ needed available, reader.Hands [⟨1, [], ⟨5, 16⟩⟩] (some (.truncated needed available)) := by
  have fits : ∀ frame ∈ idleThenBusy, frame.Fits := by
    refine List.forall_mem_cons.mpr ⟨⟨by decide, by decide, by decide⟩, ?_⟩
    exact List.forall_mem_singleton.mpr ⟨by decide, by decide, by decide⟩
  obtain ⟨reader, opened, -, -, count, -, those, ending, hands, ends⟩ :=
    (reads_back_however_cut (rfl : (ScopeId.map 3).isRepresentable = true)
      (by decide : (⟨5, 0⟩ : StreamState).wordPos < _) fits).2 80 (by decide) (by decide)
  have first : 1 ≤ count := (those 1 (by decide)).mp (by decide)
  have second : ¬2 ≤ count := fun both => absurd ((those 2 (by decide)).mpr both) (by decide)
  obtain rfl : count = 1 := by omega
  cases ends with
  | behind same => exact absurd same (by decide)
  | within _ needed available => exact ⟨reader, opened, needed, available, hands⟩

end JournalWriter

end Lockstep
