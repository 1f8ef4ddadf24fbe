import Lockstep.Proofs.Peer.Course
import Lockstep.Proofs.Peer.Follow
import Lockstep.Proofs.Peer.Replay
import Lockstep.Proofs.World.Lab

/-! # Replaying what was recorded

While a peer records a scope, the frames of its journal lead from the world at the beginning to the
present one (`Records`). So the journal, if all of it can be read back, does to any peer that starts
from the same world what was recorded (`replay_reproduces`).
-/

namespace Lockstep

variable {W : Type}

namespace Peer

theorem standing_hear (peer : Peer W) (command : Command) :
    (peer.hear command).standing = peer.standing := by
  rcases Inbox.post_cases peer.inbox (.command command) with last | lost
  · simp only [hear, last]
    rfl
  · simp only [hear, lost]

/-- A payload is no longer than what can be read. -/
def Readable (_ : Tick) (command : Command) : Prop := command.payload.length ≤ Decoder.maxBlobLength

end Peer

variable [World W]

namespace Course

/-- A peer has been recording a scope since it began, and its journal leads from the world at the
beginning to the present one. -/
structure Records (begun : Peer W) (scope : ScopeId) (stream : RandomStream) (course : Course W)
    (state : ScopeState) (writer : JournalWriter) : Prop where
  table : course.peer.standing.table = begun.table
  config : course.peer.standing.config = begun.config
  found : course.peer.standing.scopes.get? scope = some state
  journal : state.journal = some writer
  writes : writer.scope = scope
  initial : writer.initial = stream.state
  retraces : Retraces begun.table begun.config.debugMode scope writer.recorded.reverse begun.world
    stream course.peer.standing.world state.stream
  next : ∀ frame ∈ writer.recorded.head?, state.next = frame.tick.next
  totals : course.reports.map (·.total) = writer.recorded.map (·.commands.length)
  readable : ∀ frame ∈ writer.recorded, ∀ command ∈ frame.commands,
    command.payload.length ≤ Decoder.maxBlobLength
  inRange : ∀ frame ∈ writer.recorded, frame.state.wordPos < UInt64.size * UInt64.size
  holds : course.peer.HoldsOnly scope Peer.Readable

variable {begun : Peer W} {scope : ScopeId} {stream : RandomStream} {course : Course W}
  {state : ScopeState} {writer : JournalWriter}

theorem Records.of_standing {other : Course W} (records : Records begun scope stream course state writer)
    (standing : other.peer.standing = course.peer.standing) (reports : other.reports = course.reports)
    (holds : other.peer.HoldsOnly scope Peer.Readable) :
    Records begun scope stream other state writer where
  table := standing ▸ records.table
  config := standing ▸ records.config
  found := standing ▸ records.found
  journal := records.journal
  writes := records.writes
  initial := records.initial
  retraces := standing ▸ records.retraces
  next := records.next
  totals := reports ▸ records.totals
  readable := records.readable
  inRange := records.inRange
  holds := holds

/-- A tick is recorded by a frame that leads from the world before it to the world after it. -/
theorem Records.tick (records : Records begun scope stream course state writer)
    (holds : (course.meet (.advance scope)).peer.HoldsOnly scope Peer.Readable)
    {held : ScopeState} (found : course.peer.pump.2.scopes.get? scope = some held)
    (ran : course.peer.advance scope = (.ok (some (course.peer.pump.2.runTick scope held).1),
      (course.peer.pump.2.runTick scope held).2)) :
    ∃ state writer, Records begun scope stream (course.meet (.advance scope)) state writer := by
  have pumped : course.peer.pump.2.standing = course.peer.standing := Peer.standing_pump _
  have after : (course.meet (.advance scope)).peer.standing = _ :=
    congrArg Core.still ((congrArg (fun ran => ran.2.core) ran).trans (Peer.core_runTick _ scope held))
  have table : course.peer.pump.2.table = begun.table := (congrArg Core.table pumped).trans records.table
  have config : course.peer.pump.2.config = begun.config :=
    (congrArg Core.config pumped).trans records.config
  have world : course.peer.pump.2.world = course.peer.standing.world := congrArg Core.world pumped
  have here : state = { held with queue := .empty } := by
    have known := course.peer.pump.2.get?_standing scope
    rw [pumped, records.found, found] at known
    exact Option.some.inj known
  have recording : held.journal = some writer := (congrArg ScopeState.journal here).symm.trans records.journal
  let done := course.peer.pump.2.simulate scope held
  let frame : JournalFrame :=
    { tick := held.next, commands := done.commands, state := done.state.stream.state }
  have retraces := records.retraces.snoc
    (rfl : frame.rerun begun.table begun.config.debugMode scope course.peer.standing.world state.stream = _)
  rw [here, ← world, ← table, ← config] at retraces
  have reports : (course.meet (.advance scope)).reports = done.report :: course.reports := by
    rcases reports_advance course scope with ⟨-, silent⟩ | ⟨report, answered, added⟩
    · exact absurd (congrArg Prod.fst ran) (silent _)
    · rw [ran] at answered
      cases answered
      exact added
  refine ⟨{ course.peer.pump.2.stateAfter scope held with queue := .empty }, writer.record frame, ?_⟩
  exact {
    table := by rw [after]; exact table
    config := by rw [after]; exact config
    found := by
      rw [Peer.get?_standing, Course.meet, ran, Peer.scopes_runTick, SortedMap.get?_insert_self]
      rfl
    journal := by
      have recorded : (course.peer.pump.2.stateAfter scope held).journal =
          held.journal.map (·.record frame) := rfl
      rw [recorded, recording]
      rfl
    writes := records.writes
    initial := records.initial
    retraces := by
      rw [after, ← table, ← config]
      have later : (writer.record frame).recorded.reverse = writer.recorded.reverse ++ [frame] :=
        List.reverse_cons
      rw [later]
      exact retraces rfl
    next := by
      intro last member
      cases member
      rfl
    totals := by
      rw [reports, List.map_cons, records.totals]
      have total : done.report.total = frame.commands.length := by
        refine (TickReport.total_ofOutcomes _ _ _ _).trans ?_
        rw [List.length_map]
        exact length_runCommands _ _ _ _
      rw [total]
      rfl
    readable := by
      refine List.forall_mem_cons.mpr ⟨fun command member => ?_, records.readable⟩
      exact records.holds held found command (List.mem_filter.mp member).1
    inRange := List.forall_mem_cons.mpr ⟨RandomStream.state_fits _, records.inRange⟩
    holds }

/-- Whatever a recording peer meets with, it goes on to record. -/
theorem Records.meet (records : Records begun scope stream course state writer) {event : PeerEvent}
    (only : ∀ other ∈ event.scope?, other = scope)
    (readable : ∀ command ∈ event.command?, command.scope = scope →
      command.payload.length ≤ Decoder.maxBlobLength) :
    ∃ state writer, Records begun scope stream (course.meet event) state writer := by
  cases event with
  | arrive command =>
    refine ⟨state, writer, records.of_standing (Peer.standing_hear _ _) rfl ?_⟩
    rcases Peer.pump_hear_cases course.peer command with taken | lost
    · exact records.holds.enqueue taken fun own _ _ => readable command rfl own
    · have same : (course.meet (.arrive command)).peer = course.peer := lost
      rw [same]
      exact records.holds
  | pump =>
    exact ⟨state, writer, records.of_standing (Peer.standing_pump _) rfl records.holds.pump⟩
  | advance other =>
    obtain rfl := only other rfl
    have holds := records.holds.advance (fun _ _ short _ => short) other
    rcases Peer.advance_cases course.peer other with ⟨pumped, silent⟩ | ⟨held, found, ran⟩
    · rcases reports_advance course other with ⟨same, -⟩ | ⟨report, answered, -⟩
      · refine ⟨state, writer, records.of_standing ?_ same holds⟩
        rw [Course.meet, pumped, Peer.standing_pump]
      · exact absurd answered (silent report)
    · exact records.tick holds found ran

theorem Records.run (records : Records begun scope stream course state writer)
    {events : List PeerEvent} (only : ∀ event ∈ events, ∀ other ∈ event.scope?, other = scope)
    (readable : ∀ event ∈ events, ∀ command ∈ event.command?, command.scope = scope →
      command.payload.length ≤ Decoder.maxBlobLength) :
    ∃ state writer, Records begun scope stream (course.run events) state writer := by
  induction events generalizing course state writer with
  | nil => exact ⟨state, writer, records⟩
  | cons event events ih =>
    obtain ⟨here, only⟩ := List.forall_mem_cons.mp only
    obtain ⟨short, readable⟩ := List.forall_mem_cons.mp readable
    obtain ⟨state', writer', records'⟩ := records.meet here short
    exact ih records' only readable

/-- A peer that starts a journal records from then on. -/
theorem records_of_start {peer : Peer W} (began : peer.startJournal scope = .ok begun)
    (holds : begun.HoldsOnly scope Peer.Readable) :
    begun.table = peer.table ∧ begun.config = peer.config ∧ begun.world = peer.world ∧
      ∃ stream state writer, Records begun scope stream ⟨begun, []⟩ state writer := by
  unfold Peer.startJournal at began
  split at began
  next => cases began
  next held found =>
    cases began
    let writer : JournalWriter := { scope, initial := held.stream.state }
    refine ⟨rfl, rfl, rfl, held.stream, { held with journal := some writer, queue := .empty }, writer, ?_⟩
    exact {
      table := rfl
      config := rfl
      found := by
        rw [Peer.get?_standing]
        exact congrArg (Option.map _) (SortedMap.get?_insert_self _ _ _)
      journal := rfl
      writes := rfl
      initial := rfl
      retraces := .done
      next := nofun
      totals := rfl
      readable := nofun
      inRange := nofun
      holds }

/-- A replay has done to a peer what was recorded of another one, and has left no traces. -/
structure Reproduces (scope : ScopeId) (recorded before after : Peer W) : Prop where
  world : after.world = recorded.world
  stream : after.streamState? scope = recorded.streamState? scope
  tick : after.nextTick? scope = recorded.nextTick? scope
  sent : after.outbox = before.outbox
  samples (other : ScopeId) :
    (after.scopes.get? other).map (·.drift) = (before.scopes.get? other).map (·.drift)
  journals (other : ScopeId) :
    (after.scopes.get? other).map (·.journal) = (before.scopes.get? other).map (·.journal)
  others (other : ScopeId) (_ : other ≠ scope) : after.scopes.get? other = before.scopes.get? other

/-! ### What records tell -/

namespace Records

/-- What shows in the scope besides its queue. -/
theorem view_eq (records : Records begun scope stream course state writer) {α : Type}
    {view : ScopeState → α}
    (queueless : ∀ state : ScopeState, view { state with queue := .empty } = view state) :
    (course.peer.scopes.get? scope).map view = some (view state) := by
  rw [← Peer.map_standing queueless, records.found]
  rfl

/-- Each report is of one frame. -/
theorem length_reports (records : Records begun scope stream course state writer) :
    course.reports.length = writer.recorded.length := by
  simpa only [List.length_map] using congrArg List.length records.totals

/-- Frames can be written if the reports count few enough commands. -/
theorem fits (records : Records begun scope stream course state writer)
    (few : ∀ report ∈ course.reports, report.total < UInt32.size) :
    ∀ frame ∈ writer.recorded, frame.Fits := by
  intro frame member
  refine ⟨records.readable frame member, ?_, records.inRange frame member⟩
  have total : frame.commands.length ∈ course.reports.map (·.total) := by
    rw [records.totals]
    exact List.mem_map_of_mem member
  obtain ⟨report, among, same⟩ := List.mem_map.mp total
  exact same ▸ few report among

/-- The last frame is of the tick before the one that comes next. -/
theorem tickAfter_eq (records : Records begun scope stream course state writer)
    (ticked : course.reports ≠ []) (start : Tick) :
    Peer.tickAfter writer.recorded.reverse start = state.next := by
  cases frames : writer.recorded with
  | nil =>
    have length := records.length_reports
    rw [frames] at length
    exact absurd (List.length_eq_zero_iff.mp length) ticked
  | cons frame earlier =>
    rw [records.next frame (by rw [frames]; rfl), Peer.tickAfter, List.getLast?_reverse]
    rfl

theorem takeJournal_eq (records : Records begun scope stream course state writer) :
    (course.peer.takeJournal scope).1 = some writer.bytes := by
  have journal : (course.peer.scopes.get? scope).map ScopeState.journal = some (some writer) := by
    rw [records.view_eq fun _ => rfl, records.journal]
  obtain ⟨final, there, writing⟩ := Option.map_eq_some_iff.mp journal
  rw [Peer.takeJournal, there, Option.bind_some, writing]
  rfl

/-- Whoever comes to the world and the stream that were recorded has reproduced the recording. -/
theorem reproduces (records : Records begun scope stream course state writer) {replayer : Peer W}
    {held : ScopeState} (found : replayer.scopes.get? scope = some held) :
    Reproduces scope course.peer replayer { replayer with
      world := course.peer.world
      scopes := replayer.scopes.insert scope { held with
        next := state.next
        stream := state.stream
        queue := .empty } } := by
  have same {α : Type} {view : ScopeState → α} (other : ScopeId) (keeps : view
      { held with next := state.next, stream := state.stream, queue := .empty } = view held) :
      ((replayer.scopes.insert scope { held with
        next := state.next, stream := state.stream, queue := .empty }).get? other).map view =
          (replayer.scopes.get? other).map view := by
    by_cases own : other = scope
    · subst own
      rw [SortedMap.get?_insert_self, found, Option.map_some, Option.map_some, keeps]
    · rw [SortedMap.get?_insert_of_ne _ _ own]
  have streams : course.peer.streamState? scope = some state.stream.state :=
    records.view_eq fun _ => rfl
  have ticks : course.peer.nextTick? scope = some state.next := records.view_eq fun _ => rfl
  exact {
    world := rfl
    stream := by
      rw [streams, Peer.streamState?, SortedMap.get?_insert_self]
      rfl
    tick := by
      rw [ticks, Peer.nextTick?, SortedMap.get?_insert_self]
      rfl
    sent := rfl
    samples := fun other => same other rfl
    journals := fun other => same other rfl
    others := fun other away => SortedMap.get?_insert_of_ne _ _ away }

end Records

/-- A recording of at least one tick is replayed tick by tick by any peer that knows the scope and
starts from the same world with the same handlers, however it differs otherwise. The commands that
run, whether they wait already when the journal is started or arrive later, must have payloads that
can be read back, and must be few enough in each tick to be counted. -/
theorem replay_reproduces {peer replayer : Peer W} {events : List PeerEvent}
    (representable : scope.isRepresentable = true) (began : peer.startJournal scope = .ok begun)
    (only : ∀ other ∈ PeerEvent.advances events, other = scope)
    (ticked : ((Course.mk begun []).run events).reports ≠ [])
    (waiting : begun.HoldsOnly scope Peer.Readable)
    (arriving : ∀ command ∈ PeerEvent.arrivals events, command.scope = scope →
      command.payload.length ≤ Decoder.maxBlobLength)
    (few : ∀ report ∈ ((Course.mk begun []).run events).reports, report.total < UInt32.size)
    (table : replayer.table = peer.table)
    (debugMode : replayer.config.debugMode = peer.config.debugMode)
    (world : replayer.world = peer.world) (known : (replayer.nextTick? scope).isSome) :
    ∃ bytes, (((Course.mk begun []).run events).peer.takeJournal scope).1 = some bytes ∧
      (replayer.replay bytes).1 =
        .ok (.matched ((Course.mk begun []).run events).reports.length) ∧
      Reproduces scope ((Course.mk begun []).run events).peer replayer (replayer.replay bytes).2 := by
  obtain ⟨sameTable, sameConfig, sameWorld, stream, _, _, records⟩ := records_of_start began waiting
  obtain ⟨state, writer, records⟩ := records.run
    (fun event member other named => only other (List.mem_filterMap.mpr ⟨event, member, named⟩))
    (fun event member command comes =>
      arriving command (List.mem_filterMap.mpr ⟨event, member, comes⟩))
  generalize (Course.mk begun []).run events = course at *
  obtain ⟨tick, ticks⟩ := Option.isSome_iff_exists.mp known
  obtain ⟨held, found, -⟩ := Option.map_eq_some_iff.mp ticks
  have retraces : Retraces replayer.table replayer.config.debugMode writer.scope
      writer.recorded.reverse replayer.world stream course.peer.world state.stream := by
    rw [table, debugMode, world, ← sameTable, ← sameConfig, ← sameWorld, records.writes]
    exact records.retraces
  have replayed := Peer.replay_eq (records.writes ▸ representable) records.initial
    (records.fits few) (records.writes ▸ found) retraces
  refine ⟨writer.bytes, records.takeJournal_eq, ?_, ?_⟩
  · rw [replayed, records.length_reports]
  · rw [replayed, records.writes, records.tickAfter_eq ticked]
    exact records.reproduces found

/-! ## A replay -/

/-- The level peer as it starts a journal. -/
def recordingPeer : Peer Lab := (levelPeer.startJournal .global).toOption.get (by decide +kernel)

/-- A level peer with another seed, which has come to its third tick and holds a late command. -/
def replayingPeer : Peer Lab :=
  let other : Peer Lab := (Peer.create { seed := 9 } levelTable {}).toOption.get (by decide +kernel)
  ((other.advance .global).2.advance .global).2.enqueue levelCommand

/-- A command sets the level to a seven in the first of two ticks. -/
def recordedEvents : List PeerEvent := [.arrive levelCommand, .advance .global, .advance .global]

/-- Both ticks match, and the level is a seven in the replay as well. -/
theorem level_replayed :
    ∃ bytes, (((Course.mk recordingPeer []).run recordedEvents).peer.takeJournal .global).1 =
        some bytes ∧
      (replayingPeer.replay bytes).1 = .ok (.matched 2) ∧
      levelTable.read? (replayingPeer.replay bytes).2.world levelPlace =
        some (.scalar (.i32 7)) := by
  have began : levelPeer.startJournal .global = .ok recordingPeer := by rfl
  have only : ∀ other ∈ PeerEvent.advances recordedEvents, other = .global := by decide
  have ticked : ((Course.mk recordingPeer []).run recordedEvents).reports ≠ [] := by decide +kernel
  have waiting : recordingPeer.HoldsOnly .global Peer.Readable := by
    intro state found command member
    have bare : (recordingPeer.pump.2.scopes.get? .global).map (·.queue.commands) = some [] := by rfl
    rw [found] at bare
    have none : state.queue.commands = [] := Option.some.inj bare
    rw [none] at member
    cases member
  have arriving : ∀ command ∈ PeerEvent.arrivals recordedEvents, command.scope = .global →
      command.payload.length ≤ Decoder.maxBlobLength := by decide
  have few : ∀ report ∈ ((Course.mk recordingPeer []).run recordedEvents).reports,
      report.total < UInt32.size := by decide +kernel
  obtain ⟨bytes, taken, matched, reproduces⟩ := replay_reproduces (by rfl) began only ticked waiting
    arriving few (by rfl : replayingPeer.table = _) (by rfl) (by rfl) (by rfl)
  refine ⟨bytes, taken, matched, ?_⟩
  rw [reproduces.world]
  decide +kernel

/-! ## Journals that cannot be replayed -/

theorem runCommands_of_unknown {table : HandlerTable W} {commands : List Command}
    (unknown : ∀ command ∈ commands, table.get? command.handler = none) (context : CallContext)
    (state : HostState W) : (runCommands table context commands state).2 = state := by
  induction commands generalizing state with
  | nil => rfl
  | cons command commands ih =>
    obtain ⟨first, rest⟩ := List.forall_mem_cons.mp unknown
    have failed : (runCommand table context command state).2 = state := by
      rw [runCommand, HandlerTable.apply, first]
      rfl
    rw [runCommands]
    simp only [failed, ih rest]

/-- A command that no handler knows. -/
def strayCommand (payload : Bytes) : Command :=
  { handler := 7, tick := 0, scope := .global, payload }

/-- Where the stream of the level peer stands. -/
def levelStream : RandomStream := .ofScope 0 .global

theorem found_level :
    levelPeer.scopes.get? .global = some (Peer.startScope {} .global 0) := rfl

/-- What the level peer writes if it holds stray commands, starts a journal and simulates a tick. -/
def strayJournal (commands : List Command) : Bytes :=
  JournalWriter.bytes ⟨.global, levelStream.state, [⟨0, commands, levelStream.state⟩]⟩

theorem strayJournal_eq {commands : List Command}
    (countable : ∀ command ∈ commands, command.payload.length < UInt32.size) :
    strayJournal commands = Journal.header .global levelStream.state ++
      (JournalFrame.mk 0 commands levelStream.state).bytes := by
  rw [strayJournal, JournalWriter.bytes_of_lt (List.forall_mem_singleton.mpr countable),
    List.reverse_singleton, List.flatMap_singleton]

theorem journal_of_stray {commands : List Command}
    (stray : ∀ command ∈ commands, ∃ payload, command = strayCommand payload) :
    ∃ begun, (levelPeer.foresee commands).startJournal .global = .ok begun ∧
      (((Course.mk begun []).run [.advance .global]).peer.takeJournal .global).1 =
        some (strayJournal commands) := by
  have own : commands.filter (·.scope == .global) = commands := by
    refine List.filter_eq_self.mpr fun command member => ?_
    obtain ⟨payload, rfl⟩ := stray command member
    rfl
  have stamped : ∀ command ∈ commands, command.tick = 0 := fun command member => by
    obtain ⟨payload, rfl⟩ := stray command member
    rfl
  have unknown : ∀ command ∈ commands, levelTable.get? command.handler = none :=
    fun command member => by
      obtain ⟨payload, rfl⟩ := stray command member
      rfl
  let writer : JournalWriter := { scope := .global, initial := levelStream.state }
  let start : ScopeState :=
    { Peer.startScope {} .global 0 with queue := commands.foldl .push .empty }
  let held : ScopeState := { start with journal := some writer }
  let holding : Peer Lab := levelPeer.foresee commands
  let begun : Peer Lab := { levelPeer with scopes := holding.scopes.insert .global held }
  have found : holding.scopes.get? .global = some start := by
    have queued := Peer.get?_foldl_enqueue commands levelPeer .global
    rw [own] at queued
    exact queued
  have began : holding.startJournal .global = .ok begun := by
    have rest : holding = { levelPeer with scopes := holding.scopes } :=
      Peer.foldl_enqueue_eq commands levelPeer
    rw [Peer.startJournal, found, rest]
    rfl
  have pumped : begun.pump.2 = begun := Peer.pump_of_none rfl
  have there : begun.scopes.get? .global = some held := SortedMap.get?_insert_self _ _ _
  have advanced : begun.advance .global =
      (.ok (some (begun.runTick .global held).1), (begun.runTick .global held).2) := by
    simp only [Peer.advance, pumped, there]
    rfl
  have recorded : (begun.stateAfter .global held).journal =
      some (writer.record ⟨0, commands, levelStream.state⟩) := by
    let context : CallContext := { scope := .global, tick := 0 }
    let host : HostState Lab := { world := {}, stream := levelStream }
    have due : held.queue.due 0 = commands := CommandQueue.due_foldl_push stamped
    have frame : (begun.stateAfter .global held).journal = some (writer.record
      ⟨0, held.queue.due 0, (World.tickScope context
        (runCommands levelTable context (held.queue.due 0) host).2).stream.state⟩) := rfl
    rw [frame, due, runCommands_of_unknown unknown]
    rfl
  have final : ((Course.mk begun []).run [.advance .global]).peer = (begun.runTick .global held).2 :=
    congrArg Prod.snd advanced
  refine ⟨begun, began, ?_⟩
  rw [final, Peer.takeJournal, Peer.scopes_runTick, SortedMap.get?_insert_self, Option.bind_some,
    recorded]
  rfl

/-- The level peer holds commands, starts a journal and simulates a tick. The journal does not match
when it is replayed from the world at its start. -/
def Spoils (commands : List Command) : Prop :=
  ∃ begun bytes, (levelPeer.foresee commands).startJournal .global = .ok begun ∧
    (((Course.mk begun []).run [.advance .global]).peer.takeJournal .global).1 = some bytes ∧
    ∀ frames, (levelPeer.replay bytes).1 ≠ .ok (.matched frames)

/-- A payload that can be written but not read spoils a journal. -/
theorem spoils_of_long {payload : Bytes} (long : Decoder.maxBlobLength < payload.length)
    (countable : payload.length < UInt32.size) : Spoils [strayCommand payload] := by
  let frame : JournalFrame := ⟨0, [strayCommand payload], levelStream.state⟩
  have each : ∀ command ∈ frame.commands, command.payload.length < UInt32.size :=
    fun command member => (List.mem_singleton.mp member) ▸ countable
  have one : 1 < UInt32.size := by decide
  obtain ⟨error, left, failed⟩ := JournalFrame.refuses_of_long .global each one
    ⟨strayCommand payload, List.mem_singleton_self _, long⟩ []
  rw [List.append_nil] at failed
  have filled : frame.bytes ≠ [] := List.ne_nil_of_length_pos frame.length_bytes_pos
  obtain ⟨begun, began, taken⟩ := journal_of_stray fun command member =>
    ⟨payload, List.mem_singleton.mp member⟩
  have opened := JournalReader.openJournal_header (rfl : ScopeId.global.isRepresentable = true)
    levelStream.state_fits frame.bytes
  refine ⟨begun, _, began, taken, fun frames => ?_⟩
  have written : strayJournal [strayCommand payload] =
      Journal.header .global levelStream.state ++ frame.bytes := strayJournal_eq each
  rw [written, Peer.replay_of_error opened found_level (JournalReader.frames_of_error filled failed)]
  nofun

/-- What the first bare stray commands of a frame are read as where no commands are counted. -/
def strayState : StreamState := ⟨7, 7 + UInt64.size * 7⟩

theorem bytes_of_many {count : Nat} (wraps : UInt32.ofNat (count + 3) = 0) (state : StreamState) :
    (JournalFrame.mk 0 (List.replicate (count + 3) (strayCommand [])) state).bytes =
      (JournalFrame.mk 0 [] strayState).bytes ++
        ((List.replicate count (strayCommand [])).flatMap JournalFrame.commandBytes ++
          state.encode) := by
  have three : strayState.encode = JournalFrame.commandBytes (strayCommand []) ++
      (JournalFrame.commandBytes (strayCommand []) ++
        JournalFrame.commandBytes (strayCommand [])) := by decide +kernel
  have zero : UInt32.ofNat (List.replicate (count + 3) (strayCommand [])).length = 0 := by
    rw [List.length_replicate, wraps]
  have none : UInt32.ofNat ([] : List Command).length = 0 := rfl
  rw [JournalFrame.bytes, zero, JournalFrame.bytes, none, three]
  simp only [List.replicate_succ, List.flatMap_cons, List.flatMap_nil, List.nil_append,
    List.append_assoc]

/-- Commands that are miscounted as none spoil a journal. -/
theorem spoils_of_many {count : Nat} (wraps : UInt32.ofNat (count + 3) = 0) :
    Spoils (List.replicate (count + 3) (strayCommand [])) := by
  obtain ⟨begun, began, taken⟩ := journal_of_stray fun command member =>
    ⟨[], List.eq_of_mem_replicate member⟩
  refine ⟨begun, _, began, taken, fun frames => ?_⟩
  let more := (List.replicate count (strayCommand [])).flatMap JournalFrame.commandBytes ++
    levelStream.state.encode
  have written : strayJournal (List.replicate (count + 3) (strayCommand [])) =
      Journal.header .global levelStream.state ++
        ((JournalFrame.mk 0 [] strayState).bytes ++ more) := by
    have each : ∀ command ∈ List.replicate (count + 3) (strayCommand []),
        command.payload.length < UInt32.size :=
      fun command member => List.eq_of_mem_replicate member ▸ by decide
    rw [strayJournal_eq each, bytes_of_many wraps]
  have opened := JournalReader.openJournal_header (rfl : ScopeId.global.isRepresentable = true)
    levelStream.state_fits ((JournalFrame.mk 0 [] strayState).bytes ++ more)
  have readable : (JournalFrame.mk 0 [] strayState).Fits := ⟨nofun, by decide, by decide⟩
  let reader : JournalReader :=
    ⟨.global, levelStream.state, (JournalFrame.mk 0 [] strayState).bytes ++ more⟩
  have read : JournalFrame.decode reader.scope reader.rest = _ := readable.reads .global more
  obtain ⟨later, error, first⟩ := JournalReader.frames_of_read read
  have apart : levelStream.state ≠ strayState := by decide +kernel
  rw [written, Peer.replay_of_mismatch opened found_level first nofun rfl apart]
  nofun

/-- A journal is spoiled by a command that waits with a payload of more than sixteen mebibytes when it
is started, and by more commands in a tick than a word can count. -/
theorem waiting_commands_spoil_journals :
    Spoils [strayCommand (List.replicate (Decoder.maxBlobLength + 1) 0)] ∧
      Spoils (List.replicate UInt32.size (strayCommand [])) := by
  constructor
  · have length : (List.replicate (Decoder.maxBlobLength + 1) (0 : UInt8)).length =
        Decoder.maxBlobLength + 1 := List.length_replicate
    refine spoils_of_long ?_ ?_
    · rw [length]
      exact Nat.lt_succ_self _
    · rw [length]
      decide
  · obtain ⟨count, size⟩ : ∃ count, UInt32.size = count + 3 := ⟨UInt32.size - 3, rfl⟩
    rw [size]
    exact spoils_of_many (size ▸ rfl)

end Course

end Lockstep
