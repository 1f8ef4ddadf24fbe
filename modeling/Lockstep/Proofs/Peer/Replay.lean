import Lockstep.Peer.Replay
import Lockstep.Proofs.Journal
import Lockstep.Proofs.Success

/-! # Replaying frames

What a tick does depends on the world, on where the stream stands, and on the handlers and payloads of
the commands that run; it does not depend on their stamps, on the queue or on what else the peer knows.
So frames that lead from one world to another do so whenever they are rerun (`Retraces`), and whoever
replays a journal of such frames (`replay_eq`).
-/

namespace Lockstep

variable {W : Type} [World W]

/-! ## Rerunning frames -/

/-- Commands run alike whatever they are stamped with. -/
theorem runCommands_map_stamp (table : HandlerTable W) (context : CallContext) (scope : ScopeId)
    (tick : Tick) (commands : List Command) (state : HostState W) :
    runCommands table context (commands.map fun command => { command with tick, scope }) state =
      runCommands table context commands state := by
  induction commands generalizing state with
  | nil => rfl
  | cons command commands ih =>
    simp only [List.map_cons, runCommands, ih]
    rfl

/-- What the commands of a frame and the tick of its scope make of a world and a stream. -/
def JournalFrame.rerun (table : HandlerTable W) (debugMode : Bool) (scope : ScopeId)
    (frame : JournalFrame) (world : W) (stream : RandomStream) : HostState W :=
  let context := { scope, tick := frame.tick, debugMode }
  World.tickScope context (runCommands table context frame.commands { world, stream }).2

theorem JournalFrame.rerun_restamp (table : HandlerTable W) (debugMode : Bool) (scope : ScopeId)
    (frame : JournalFrame) : (frame.restamp scope).rerun table debugMode scope =
      frame.rerun table debugMode scope := by
  funext world stream
  rw [rerun, rerun, restamp, runCommands_map_stamp]

/-- Frames lead from one world and stream to another, through the states that they record. -/
inductive Retraces (table : HandlerTable W) (debugMode : Bool) (scope : ScopeId) :
    List JournalFrame → W → RandomStream → W → RandomStream → Prop where
  | done {world : W} {stream : RandomStream} : Retraces table debugMode scope [] world stream world stream
  | frame {frame : JournalFrame} {frames : List JournalFrame} {world final : W}
      {stream last : RandomStream} {host : HostState W}
      (ran : frame.rerun table debugMode scope world stream = host)
      (matched : host.stream.state = frame.state)
      (rest : Retraces table debugMode scope frames host.world host.stream final last) :
      Retraces table debugMode scope (frame :: frames) world stream final last

namespace Retraces

variable {table : HandlerTable W} {debugMode : Bool} {scope : ScopeId}
  {frames : List JournalFrame} {world final : W} {stream last : RandomStream}

/-- One more tick at the end. -/
theorem snoc (retraces : Retraces table debugMode scope frames world stream final last)
    {frame : JournalFrame} {host : HostState W}
    (ran : frame.rerun table debugMode scope final last = host)
    (matched : host.stream.state = frame.state) :
    Retraces table debugMode scope (frames ++ [frame]) world stream host.world host.stream := by
  induction retraces with
  | done => exact .frame ran matched .done
  | frame ran' matched' _ ih => exact .frame ran' matched' (ih ran)

theorem restamp (retraces : Retraces table debugMode scope frames world stream final last) :
    Retraces table debugMode scope (frames.map (·.restamp scope)) world stream final last := by
  induction retraces with
  | done => exact .done
  | @frame frame _ _ _ _ _ _ ran matched _ ih =>
    exact .frame ((congrFun₂ (frame.rerun_restamp table debugMode scope) _ _).trans ran) matched ih

end Retraces

namespace Peer

/-! ## Replaying frames -/

variable {scope : ScopeId} {state : ScopeState}

/-- Replaying a frame on an empty queue reruns it and leaves the queue empty. -/
theorem replayFrame_eq (peer : Peer W) (empty : state.queue = .empty) {frame : JournalFrame}
    (stamped : ∀ command ∈ frame.commands, command.tick = frame.tick) {host : HostState W}
    (ran : frame.rerun peer.table peer.config.debugMode scope peer.world state.stream = host) :
    peer.replayFrame scope state frame = (host.stream.state == frame.state,
      { peer with
        world := host.world
        scopes := peer.scopes.insert scope
          { state with next := frame.tick.next, stream := host.stream } }) := by
  subst ran
  obtain ⟨next, stream, queue, drift, journal⟩ := state
  obtain rfl : queue = .empty := empty
  simp only [replayFrame, simulate, CommandQueue.due_foldl_push stamped,
    CommandQueue.later_foldl_push stamped]
  rfl

/-- A scope comes to the tick after the last frame, if there is one. -/
def tickAfter (frames : List JournalFrame) (next : Tick) : Tick :=
  (frames.getLast?.map (·.tick.next)).getD next

/-- Frames that lead somewhere lead a peer there, and leave the rest of it alone. -/
theorem replayFrames_eq {peer : Peer W} {frames : List JournalFrame} {final : W}
    {last : RandomStream} (found : peer.scopes.get? scope = some state)
    (empty : state.queue = .empty)
    (stamped : ∀ frame ∈ frames, ∀ command ∈ frame.commands, command.tick = frame.tick)
    (retraces : Retraces peer.table peer.config.debugMode scope frames peer.world state.stream
      final last) (matched : Nat) :
    replayFrames scope frames matched peer = .ok (.matched (matched + frames.length),
      { peer with
        world := final
        scopes := peer.scopes.insert scope
          { state with next := tickAfter frames state.next, stream := last } }) := by
  induction frames generalizing peer state matched with
  | nil =>
    cases retraces
    have same : peer.scopes.insert scope { state with next := tickAfter [] state.next } =
        peer.scopes := SortedMap.insert_of_get? found
    rw [same]
    rfl
  | cons frame frames ih =>
    obtain ⟨here, later⟩ := List.forall_mem_cons.mp stamped
    cases retraces with
    | @frame _ _ _ _ _ _ host ran stands rest =>
      have agreed : (host.stream.state == frame.state) = true := beq_iff_eq.mpr stands
      rw [replayFrames, found]
      simp only [replayFrame_eq peer empty here ran, agreed]
      rw [ih (SortedMap.get?_insert_self _ _ _) (by exact empty) later (by exact rest)]
      have next : tickAfter (frame :: frames) state.next = tickAfter frames frame.tick.next := by
        rw [tickAfter, List.getLast?_cons, tickAfter]
        cases frames.getLast? with
        | none => rfl
        | some final => rfl
      rw [next, SortedMap.insert_insert_self, List.length_cons]
      have count : matched + 1 + frames.length = matched + (frames.length + 1) := by omega
      rw [count]

/-- A peer with a scope whose stream is put somewhere and in which nothing is queued. -/
def rewind (peer : Peer W) (scope : ScopeId) (state : ScopeState) (stream : RandomStream) : Peer W :=
  { peer with scopes := peer.scopes.insert scope { state with stream, queue := .empty } }

/-- Replaying a journal whose frames lead somewhere leads there from where it started. -/
theorem replay_eq {peer : Peer W} {writer : JournalWriter} {stream last : RandomStream} {final : W}
    (representable : writer.scope.isRepresentable = true) (initial : writer.initial = stream.state)
    (fits : ∀ frame ∈ writer.recorded, frame.Fits)
    (found : peer.scopes.get? writer.scope = some state)
    (retraces : Retraces peer.table peer.config.debugMode writer.scope writer.recorded.reverse
      peer.world stream final last) :
    peer.replay writer.bytes = (.ok (.matched writer.recorded.length),
      { peer with
        world := final
        scopes := peer.scopes.insert writer.scope
          { state with
            next := tickAfter writer.recorded.reverse state.next
            stream := last
            queue := .empty } }) := by
  have inRange : writer.initial.wordPos < UInt64.size * UInt64.size := initial ▸ stream.state_fits
  obtain ⟨reader, opened, scope, start, frames⟩ :=
    JournalWriter.openJournal_bytes representable inRange fits
  have rewound : state.stream.restore reader.initial = stream := by
    rw [start, initial, RandomStream.restore_state]
  have stamped : ∀ frame ∈ writer.recorded.reverse.map (·.restamp writer.scope),
      ∀ command ∈ frame.commands, command.tick = frame.tick := by
    intro frame member command among
    obtain ⟨recorded, -, rfl⟩ := List.mem_map.mp member
    obtain ⟨original, -, rfl⟩ := List.mem_map.mp among
    rfl
  have found' : (peer.rewind writer.scope state stream).scopes.get? writer.scope =
      some { state with stream, queue := .empty } := SortedMap.get?_insert_self _ _ _
  have run := replayFrames_eq found' rfl stamped retraces.restamp 0
  have scopes (after : ScopeState) : (peer.rewind writer.scope state stream).scopes.insert
      writer.scope after = peer.scopes.insert writer.scope after := SortedMap.insert_insert_self ..
  have length : 0 + (writer.recorded.reverse.map (·.restamp writer.scope)).length =
      writer.recorded.length := by simp
  have next : tickAfter (writer.recorded.reverse.map (·.restamp writer.scope)) state.next =
      tickAfter writer.recorded.reverse state.next := by
    simp only [tickAfter, List.getLast?_map, Option.map_map]
    rfl
  rw [length, next, scopes] at run
  rw [rewind] at run
  simp only [replay, opened, scope, found, rewound, frames, run]

/-- A journal whose first frame cannot be read ends a replay at once. -/
theorem replay_of_error {peer : Peer W} {bytes : Bytes} {reader : JournalReader}
    {error : FormatError} (opened : JournalReader.openJournal bytes = .ok reader)
    (found : peer.scopes.get? reader.scope = some state) (frames : reader.frames = ([], some error)) :
    (peer.replay bytes).1 = .error (.journal (.format error)) := by
  simp only [replay, opened, found, frames, replayFrames]

/-- So does a first frame that does not record where its rerun leads. -/
theorem replay_of_mismatch {peer : Peer W} {bytes : Bytes} {reader : JournalReader}
    {frame : JournalFrame} {later : List JournalFrame} {error? : Option FormatError}
    {host : HostState W} (opened : JournalReader.openJournal bytes = .ok reader)
    (found : peer.scopes.get? reader.scope = some state)
    (frames : reader.frames = (frame :: later, error?))
    (stamped : ∀ command ∈ frame.commands, command.tick = frame.tick)
    (ran : frame.rerun peer.table peer.config.debugMode reader.scope peer.world
      (state.stream.restore reader.initial) = host)
    (apart : host.stream.state ≠ frame.state) :
    (peer.replay bytes).1 = .ok (.diverged frame.tick 0) := by
  have differs : (host.stream.state == frame.state) = false := beq_eq_false_iff_ne.mpr apart
  let held : ScopeState := { state with stream := state.stream.restore reader.initial, queue := .empty }
  have rerun : frame.rerun (peer.rewind reader.scope state held.stream).table
      (peer.rewind reader.scope state held.stream).config.debugMode reader.scope
      (peer.rewind reader.scope state held.stream).world held.stream = host := ran
  have replayed := (peer.rewind reader.scope state held.stream).replayFrame_eq (rfl : held.queue = .empty)
    stamped rerun
  rw [differs, rewind] at replayed
  simp only [replay, opened, found, frames, replayFrames, SortedMap.get?_insert_self, held] at replayed ⊢
  simp only [replayed]

end Peer

end Lockstep
