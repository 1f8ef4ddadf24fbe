import Lockstep.Proofs.Peer.Abreast
import Lockstep.Proofs.Peer.Inbox

/-! # Foresight

A command that a peer takes in before its tick could as well have been in its queue from the start.
Advancing a scope and queueing a command stamped for a later tick commute (`advance_foldl_enqueue`),
and of the order in which commands are queued only the order within each tick of each scope matters
(`foresee_congr`).
-/

namespace Lockstep

variable {W : Type}

/-- A core without the messages, commands and limits that keep coming in. -/
def Core.still (core : Core W) : Core W where
  config := core.config
  table := core.table
  world := core.world
  scopes := core.scopes.mapValues fun _ state => { state with queue := .empty }
  inbox := { core.inbox with messages := [] }
  outbox := core.outbox
  tickLimit := none

namespace Peer

/-- A command arrives. -/
def hear (peer : Peer W) (command : Command) : Peer W :=
  { peer with inbox := peer.inbox.post (.ok (.command command)) }

/-- Take in messages, and queue commands that are yet to come. -/
def foresee (peer : Peer W) (coming : List Command) : Peer W := coming.foldl enqueue peer.pump.2

@[simp] theorem pump_pump (peer : Peer W) : peer.pump.2.pump.2 = peer.pump.2 := by
  have none : peer.pump.2.inbox.messages = [] := by rw [inbox_pump]
  rw [pump_eq_foldl, none, List.foldl_nil, emptied, inbox_pump, ← inbox_pump]

/-- A peer with nothing to take in is as it was. -/
theorem pump_of_none {peer : Peer W} (none : peer.inbox.messages = []) : peer.pump.2 = peer := by
  rw [pump_eq_foldl, none, List.foldl_nil, emptied, ← none]

/-- A command that finds room is taken in behind what waited before it. -/
theorem pump_hear {peer : Peer W} {command : Command} (listening : peer.inbox.isClosed = false)
    (room : peer.inbox.messages.length < peer.inbox.capacity) :
    (peer.hear command).pump.2 = peer.pump.2.enqueue command := by
  rw [hear, Inbox.post_of_room listening room, pump_eq_foldl, List.foldl_append]
  rfl

theorem pump_hear_cases (peer : Peer W) (command : Command) :
    (peer.hear command).pump.2 = peer.pump.2.enqueue command ∨ peer.hear command = peer := by
  rcases Inbox.post_cases peer.inbox (.command command) with last | lost
  · refine .inl ?_
    rw [hear, last, pump_eq_foldl, List.foldl_append]
    rfl
  · refine .inr ?_
    rw [hear, lost]

theorem foresee_hear {peer : Peer W} {command : Command} (listening : peer.inbox.isClosed = false)
    (room : peer.inbox.messages.length < peer.inbox.capacity) (coming : List Command) :
    (peer.hear command).foresee coming = peer.foresee (command :: coming) := by
  rw [foresee, pump_hear listening room]
  rfl

/-! ## What queueing a command leaves alone -/

@[simp] theorem inbox_enqueue (peer : Peer W) (command : Command) :
    (peer.enqueue command).inbox = peer.inbox := rfl

theorem report_enqueue (peer : Peer W) (command : Command) (divergence : Divergence) :
    (peer.enqueue command).report divergence = (peer.report divergence).enqueue command := by
  unfold report
  split
  next known => rw [if_pos (by exact known)]
  next unknown => rw [if_neg (by exact unknown)]; rfl

theorem submit_enqueue (peer : Peer W) (command : Command) (author : PeerId)
    (opinion : DriftOpinion) :
    (peer.enqueue command).submit author opinion = (peer.submit author opinion).enqueue command := by
  unfold submit
  have arbiter : (peer.enqueue command).arbiter = peer.arbiter := rfl
  rw [arbiter]
  rcases peer.arbiter.submit author opinion with ⟨_ | divergence, weighed⟩
  · rfl
  · exact report_enqueue { peer with arbiter := weighed } command divergence

theorem publish_enqueue (peer : Peer W) (command : Command) (opinion : DriftOpinion) :
    (peer.enqueue command).publish opinion = (peer.publish opinion).enqueue command := by
  unfold publish
  cases opinion.encode with
  | ok bytes => exact submit_enqueue (peer.send (.opinion bytes)) command peer.id opinion
  | error error => exact submit_enqueue peer command peer.id opinion

/-! ## Queueing a command ahead of a tick -/

variable [World W]

/-- A peer after a tick, before it publishes an opinion. -/
def settle (peer : Peer W) (scope : ScopeId) (state : ScopeState) : Peer W :=
  { peer with
    world := (peer.simulate scope state).world
    scopes := peer.scopes.insert scope (peer.stateAfter scope state) }

theorem runTick_eq (peer : Peer W) (scope : ScopeId) (state : ScopeState) :
    peer.runTick scope state = ((peer.simulate scope state).report,
      match peer.opinionAfter? scope state with
      | some opinion => (peer.settle scope state).publish opinion
      | none => peer.settle scope state) := rfl

/-- A tick leaves alone what is stamped for later ones. -/
theorem simulate_push (peer : Peer W) (scope : ScopeId) {state : ScopeState} {command : Command}
    (later : state.next < command.tick) :
    peer.simulate scope { state with queue := state.queue.push command } =
      { peer.simulate scope state with
        state := { (peer.simulate scope state).state with
          queue := (peer.simulate scope state).state.queue.push command } } := by
  simp only [simulate, CommandQueue.due_push _ later, CommandQueue.later_push _ later]

theorem stateAfter_push (peer : Peer W) (scope : ScopeId) {state : ScopeState} {command : Command}
    (later : state.next < command.tick) :
    peer.stateAfter scope { state with queue := state.queue.push command } =
      { peer.stateAfter scope state with
        queue := (peer.stateAfter scope state).queue.push command } := by
  simp only [stateAfter, simulate_push peer scope later]

theorem opinionAfter?_push (peer : Peer W) (scope : ScopeId) {state : ScopeState}
    {command : Command} (later : state.next < command.tick) :
    peer.opinionAfter? scope { state with queue := state.queue.push command } =
      peer.opinionAfter? scope state := by
  simp only [opinionAfter?, simulate_push peer scope later]

/-- Queueing a command for another scope and settling a tick commute. -/
theorem settle_enqueue_of_ne (peer : Peer W) {command : Command} {scope : ScopeId}
    (state : ScopeState) (ne : command.scope ≠ scope) :
    (peer.enqueue command).settle scope state = (peer.settle scope state).enqueue command := by
  have scopes := SortedMap.insert_modify_of_ne peer.scopes
    (fun held => { held with queue := held.queue.push command }) (peer.stateAfter scope state) ne
  have settled : (peer.enqueue command).settle scope state =
      { peer.settle scope state with
        scopes := (peer.scopes.modify command.scope fun held =>
          { held with queue := held.queue.push command }).insert scope
            (peer.stateAfter scope state) } := rfl
  rw [settled, scopes]
  rfl

/-- So do queueing a command for a later tick of the scope and settling its tick. -/
theorem settle_enqueue_self (peer : Peer W) {command : Command} {state : ScopeState}
    (later : state.next < command.tick) :
    (peer.enqueue command).settle command.scope { state with queue := state.queue.push command } =
      (peer.settle command.scope state).enqueue command := by
  have simulated : (peer.enqueue command).simulate command.scope
      { state with queue := state.queue.push command } = _ :=
    simulate_push peer command.scope later
  have after : (peer.enqueue command).stateAfter command.scope
      { state with queue := state.queue.push command } = _ :=
    stateAfter_push peer command.scope later
  rw [settle, simulated, after, settle, enqueue]
  simp only [enqueue, SortedMap.insert_modify_self, SortedMap.modify_insert_self]

theorem runTick_enqueue_of_ne (peer : Peer W) {command : Command} {scope : ScopeId}
    (state : ScopeState) (ne : command.scope ≠ scope) :
    (peer.enqueue command).runTick scope state =
      ((peer.runTick scope state).1, (peer.runTick scope state).2.enqueue command) := by
  have opinion : (peer.enqueue command).opinionAfter? scope state = peer.opinionAfter? scope state :=
    rfl
  rw [runTick_eq, runTick_eq, opinion, settle_enqueue_of_ne peer state ne]
  cases peer.opinionAfter? scope state with
  | none => rfl
  | some opinion => exact congrArg _ (publish_enqueue _ _ _)

theorem runTick_enqueue_self (peer : Peer W) {command : Command} {state : ScopeState}
    (later : state.next < command.tick) :
    (peer.enqueue command).runTick command.scope { state with queue := state.queue.push command } =
      ((peer.runTick command.scope state).1,
        (peer.runTick command.scope state).2.enqueue command) := by
  have simulated : (peer.enqueue command).simulate command.scope
      { state with queue := state.queue.push command } = _ :=
    simulate_push peer command.scope later
  have opinion : (peer.enqueue command).opinionAfter? command.scope
      { state with queue := state.queue.push command } = _ :=
    opinionAfter?_push peer command.scope later
  rw [runTick_eq, runTick_eq, simulated, opinion, settle_enqueue_self peer later]
  cases peer.opinionAfter? command.scope state with
  | none => rfl
  | some opinion => exact congrArg _ (publish_enqueue _ _ _)

/-- An advance that simulates no tick only takes in messages; one that does runs the tick. -/
theorem advance_cases (peer : Peer W) (scope : ScopeId) :
    ((peer.advance scope).2 = peer.pump.2 ∧
      ∀ report, (peer.advance scope).1 ≠ .ok (some report)) ∨
    ∃ state, peer.pump.2.scopes.get? scope = some state ∧
      peer.advance scope = (.ok (some (peer.pump.2.runTick scope state).1),
        (peer.pump.2.runTick scope state).2) := by
  simp only [advance]
  cases found : peer.pump.2.scopes.get? scope with
  | none => exact .inl ⟨rfl, by simp⟩
  | some state =>
    simp only
    split
    · exact .inl ⟨rfl, by simp⟩
    · exact .inr ⟨state, rfl, rfl⟩

theorem idle_advance (peer : Peer W) (scope : ScopeId) :
    (peer.advance scope).2.inbox.messages = [] := by
  rcases advance_cases peer scope with ⟨pumped, -⟩ | ⟨state, -, ran⟩
  · rw [pumped, inbox_pump]
  · rw [ran, inbox_runTick, inbox_pump]

/-- A report is on the tick that the scope came to. -/
theorem nextTick?_of_report {peer : Peer W} {scope : ScopeId} {report : TickReport}
    (answered : (peer.advance scope).1 = .ok (some report)) :
    report.scope = scope ∧ peer.nextTick? scope = some report.tick ∧
      (peer.advance scope).2.nextTick? scope = some report.tick.next := by
  rcases advance_cases peer scope with ⟨-, silent⟩ | ⟨state, found, ran⟩
  · exact absurd answered (silent report)
  · rw [ran] at answered ⊢
    cases answered
    refine ⟨rfl, ?_, nextTick?_runTick_self _ _ _⟩
    rw [← nextTick?_pump, nextTick?, found]
    rfl

/-- No scope goes back. -/
theorem next_le_advance {peer : Peer W} {scope other : ScopeId} {next : Tick}
    (known : peer.nextTick? other = some next) :
    ∃ after, (peer.advance scope).2.nextTick? other = some after ∧ next ≤ after := by
  rcases advance_cases peer scope with ⟨pumped, -⟩ | ⟨state, found, ran⟩
  · exact ⟨next, by rw [pumped, nextTick?_pump, known], UInt32.le_refl next⟩
  · rw [ran]
    by_cases own : other = scope
    · subst own
      have here : peer.nextTick? other = some state.next := by
        rw [← nextTick?_pump, nextTick?, found]
        rfl
      rw [known] at here
      cases here
      exact ⟨_, nextTick?_runTick_self _ _ _, Tick.le_next _⟩
    · exact ⟨next, by rw [nextTick?_runTick_of_ne _ _ own, nextTick?_pump, known], UInt32.le_refl next⟩

theorem advance_pump (peer : Peer W) (scope : ScopeId) :
    peer.pump.2.advance scope = peer.advance scope := by
  simp only [advance, pump_pump]

/-- Advancing a scope and queueing a command that is not due in its tick commute. -/
theorem advance_enqueue {peer : Peer W} (idle : peer.inbox.messages = []) {command : Command}
    {scope : ScopeId} (later : command.scope = scope → ∀ report,
      (peer.advance scope).1 = .ok (some report) → report.tick < command.tick) :
    (peer.enqueue command).advance scope =
      ((peer.advance scope).1, (peer.advance scope).2.enqueue command) := by
  have still : (peer.enqueue command).pump.2 = peer.enqueue command := pump_of_none idle
  have limit : (peer.enqueue command).tickLimit = peer.tickLimit := rfl
  simp only [advance, pump_of_none idle] at later
  simp only [advance, pump_of_none idle, still, limit]
  by_cases own : command.scope = scope
  · subst own
    have held : (peer.enqueue command).scopes.get? command.scope =
        (peer.scopes.get? command.scope).map fun state =>
          { state with queue := state.queue.push command } :=
      SortedMap.get?_modify_self _ _ _
    rw [held]
    cases found : peer.scopes.get? command.scope with
    | none => rfl
    | some state =>
      simp only [found, Option.map_some] at later ⊢
      split
      · rfl
      next free =>
        rw [if_neg free] at later
        have ahead : state.next < command.tick := later True.intro _ rfl
        rw [runTick_enqueue_self peer ahead]
  · have held : (peer.enqueue command).scopes.get? scope = peer.scopes.get? scope :=
      SortedMap.get?_modify_of_ne _ _ (Ne.symm own)
    rw [held]
    cases peer.scopes.get? scope with
    | none => rfl
    | some state =>
      simp only
      split
      · rfl
      · rw [runTick_enqueue_of_ne peer state own]

/-- Commands that are not due in the next tick of a scope may as well be queued after it. -/
theorem advance_foldl_enqueue {peer : Peer W} (idle : peer.inbox.messages = [])
    {coming : List Command} {scope : ScopeId}
    (later : ∀ command ∈ coming, command.scope = scope → ∀ report,
      (peer.advance scope).1 = .ok (some report) → report.tick < command.tick) :
    (coming.foldl enqueue peer).advance scope =
      ((peer.advance scope).1, coming.foldl enqueue (peer.advance scope).2) := by
  induction coming generalizing peer with
  | nil => rfl
  | cons command coming ih =>
    obtain ⟨first, rest⟩ := List.forall_mem_cons.mp later
    have step := advance_enqueue idle first
    have still : (peer.enqueue command).inbox.messages = [] := idle
    have queued := ih still (by rw [step]; exact rest)
    rw [List.foldl_cons, queued, step]
    rfl

/-! ## What foresight depends on -/

omit [World W]

theorem get?_foldl_enqueue (coming : List Command) (peer : Peer W) (scope : ScopeId) :
    (coming.foldl enqueue peer).scopes.get? scope = (peer.scopes.get? scope).map fun state =>
      { state with queue := (coming.filter (·.scope == scope)).foldl .push state.queue } := by
  induction coming generalizing peer with
  | nil => simp
  | cons command coming ih =>
    rw [List.foldl_cons, ih]
    by_cases own : command.scope = scope
    · subst own
      have held : (peer.enqueue command).scopes.get? command.scope = _ :=
        SortedMap.get?_modify_self peer.scopes command.scope _
      rw [held, Option.map_map, List.filter_cons_of_pos (by simp)]
      rfl
    · have held : (peer.enqueue command).scopes.get? scope = _ :=
        SortedMap.get?_modify_of_ne peer.scopes _ (Ne.symm own)
      rw [held, List.filter_cons_of_neg (by simpa using own)]

theorem foldl_enqueue_eq (coming : List Command) (peer : Peer W) :
    coming.foldl enqueue peer = { peer with scopes := (coming.foldl enqueue peer).scopes } := by
  induction coming generalizing peer with
  | nil => rfl
  | cons command coming ih =>
    rw [List.foldl_cons, ih]
    rfl

/-- Commands may be foreseen in any order that is the same for every tick of every scope that the peer
has; those for other scopes are lost in any case. -/
theorem foresee_congr (peer : Peer W) {coming others : List Command}
    (same : ∀ scope tick, (peer.nextTick? scope).isSome →
      coming.filter (·.isFor scope tick) = others.filter (·.isFor scope tick)) :
    peer.foresee coming = peer.foresee others := by
  have scopes : (coming.foldl enqueue peer.pump.2).scopes =
      (others.foldl enqueue peer.pump.2).scopes := by
    refine SortedMap.ext fun scope => ?_
    rw [get?_foldl_enqueue, get?_foldl_enqueue]
    cases found : peer.pump.2.scopes.get? scope with
    | none => rfl
    | some state =>
      have known : (peer.nextTick? scope).isSome := by
        rw [← nextTick?_pump, nextTick?, found]
        rfl
      have queues : (coming.filter (·.scope == scope)).foldl CommandQueue.push state.queue =
          (others.filter (·.scope == scope)).foldl CommandQueue.push state.queue := by
        refine CommandQueue.ext_atTick fun tick => ?_
        have stamped : ∀ commands : List Command,
            (commands.filter (·.scope == scope)).filter (·.tick == tick) =
              commands.filter (·.isFor scope tick) := fun commands => by
          rw [List.filter_filter]
          exact List.filter_congr fun command _ => Bool.and_comm _ _
        rw [CommandQueue.atTick_foldl_push, CommandQueue.atTick_foldl_push, stamped, stamped,
          same scope tick known]
      rw [Option.map_some, Option.map_some, queues]
  rw [foresee, foresee, foldl_enqueue_eq coming, foldl_enqueue_eq others, scopes]

/-! ## What taking in messages leaves alone -/

/-- What a peer simulates on, but for what keeps coming in. -/
def standing (peer : Peer W) : Core W := peer.core.still

theorem standing_receive (peer : Peer W) (message : Inbound) :
    (peer.receive message).standing = peer.standing := by
  cases message with
  | command arrived =>
    have scopes : ((peer.enqueue arrived).scopes.mapValues fun _ state =>
        { state with queue := .empty }) =
          peer.scopes.mapValues fun _ state => { state with queue := .empty } := by
      refine SortedMap.ext fun scope => ?_
      rw [SortedMap.get?_mapValues, SortedMap.get?_mapValues, enqueue]
      by_cases own : scope = arrived.scope
      · subst own
        rw [SortedMap.get?_modify_self, Option.map_map]
        rfl
      · rw [SortedMap.get?_modify_of_ne _ _ own]
    exact congrArg (fun scopes => { peer.standing with scopes }) scopes
  | tickLimit limit => rfl
  | opinion author bytes => exact congrArg Core.still (core_receive_opinion peer author bytes)
  | diverged divergence => exact congrArg Core.still (core_receive_diverged peer divergence)

@[simp] theorem standing_pump (peer : Peer W) : peer.pump.2.standing = peer.standing :=
  pump_keeps standing (fun _ => rfl) standing_receive peer

theorem get?_standing (peer : Peer W) (scope : ScopeId) :
    peer.standing.scopes.get? scope =
      (peer.scopes.get? scope).map fun state => { state with queue := .empty } :=
  SortedMap.get?_mapValues _ peer.scopes scope

/-- Whatever shows in a scope besides its queue, taking in messages leaves alone. -/
theorem map_standing {α : Type} {view : ScopeState → α}
    (queueless : ∀ state : ScopeState, view { state with queue := .empty } = view state)
    (peer : Peer W) (scope : ScopeId) :
    (peer.standing.scopes.get? scope).map view = (peer.scopes.get? scope).map view := by
  rw [get?_standing, Option.map_map]
  exact congrArg (Option.map · _) (funext queueless)

/-! ## What a peer holds -/

/-- Every command held for a scope, whether in its queue or in the inbox, is admitted at the tick that
the scope comes to next. -/
def HoldsOnly (peer : Peer W) (scope : ScopeId) (admits : Tick → Command → Prop) : Prop :=
  ∀ state, peer.pump.2.scopes.get? scope = some state →
    ∀ command ∈ state.queue.commands, admits state.next command

variable {admits : Tick → Command → Prop}

theorem HoldsOnly.enqueue {peer after : Peer W} {scope : ScopeId} {command : Command}
    (holds : peer.HoldsOnly scope admits) (pumped : after.pump.2 = peer.pump.2.enqueue command)
    (admitted : command.scope = scope → ∀ next, peer.nextTick? scope = some next →
      admits next command) : after.HoldsOnly scope admits := by
  intro state found other member
  rw [pumped] at found
  obtain ⟨old, known, next, ⟨rfl, queue⟩ | ⟨-, queue⟩⟩ := of_get?_enqueue found
  · rw [queue, CommandQueue.mem_push] at member
    rw [next]
    rcases member with rfl | member
    · refine admitted rfl _ ?_
      rw [← nextTick?_pump, nextTick?, known]
      rfl
    · exact holds old known other member
  · rw [queue] at member
    rw [next]
    exact holds old known other member

theorem HoldsOnly.pump {peer : Peer W} {scope : ScopeId} (holds : peer.HoldsOnly scope admits) :
    peer.pump.2.HoldsOnly scope admits := by
  rw [HoldsOnly, pump_pump]
  exact holds

/-- A peer goes on to hold what is admitted, if what is stamped for later ticks stays admitted. -/
theorem HoldsOnly.advance [World W] {peer : Peer W} {scope : ScopeId}
    (holds : peer.HoldsOnly scope admits)
    (stays : ∀ next command, admits next command → next < command.tick → admits next.next command)
    (other : ScopeId) : (peer.advance other).2.HoldsOnly scope admits := by
  have still := pump_of_none (idle_advance peer other)
  rw [HoldsOnly, still]
  rcases advance_cases peer other with ⟨pumped, -⟩ | ⟨state, found, ran⟩
  · rw [pumped]
    exact holds
  · rw [ran]
    intro after later command member
    rcases get?_runTick.mp later with ⟨rfl, rfl⟩ | ⟨-, same⟩
    · rw [queue_stateAfter, CommandQueue.mem_later] at member
      exact stays _ command (holds state found command member.1) member.2
    · exact holds after same command member

end Peer

end Lockstep
