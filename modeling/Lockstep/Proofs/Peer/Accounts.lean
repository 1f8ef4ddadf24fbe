import Lockstep.Proofs.Peer.Chronicle
import Lockstep.Proofs.World.Lab
import Mathlib.Data.List.Sort

/-! # Every command runs once

A scope keeps an account of each command that it takes in: the command waits in the queue until it has
run in one tick, which is the one that it is stamped for, or the one that the scope was to simulate
when it came late. `exactly_once` has the accounts of any run, and reads off them in which order the
commands of a tick run and what the report on the tick says.
-/

namespace Lockstep

/-! ## Orders of commands -/

namespace Command

/-- Commands by their stamps, and those with equal stamps in the order in which they come. -/
def inOrder (commands : List Command) : List Command :=
  commands.mergeSort fun first second => first.tick ≤ second.tick

theorem inOrder_perm (commands : List Command) : (inOrder commands).Perm commands :=
  List.mergeSort_perm _ _

theorem pairwise_inOrder (commands : List Command) :
    (inOrder commands).Pairwise fun first second => first.tick ≤ second.tick := by
  have sorted : (inOrder commands).Pairwise fun first second => decide (first.tick ≤ second.tick) = true :=
    List.pairwise_mergeSort (fun first second third => by simpa using UInt32.le_trans)
      (fun first second => by simpa using UInt32.le_total first.tick second.tick) commands
  exact sorted.imp of_decide_eq_true

/-- Sorting leaves the commands with one stamp in the order in which they come. -/
theorem filter_tick_inOrder (commands : List Command) (tick : Tick) :
    (inOrder commands).filter (·.tick == tick) = commands.filter (·.tick == tick) := by
  have alike : (commands.filter (·.tick == tick)).Pairwise fun first second =>
      decide (first.tick ≤ second.tick) = true := by
    refine List.pairwise_of_forall_mem_list fun first member second member' => ?_
    have here := (List.mem_filter.mp member).2
    have there := (List.mem_filter.mp member').2
    rw [beq_iff_eq] at here there
    rw [here, there]
    exact decide_eq_true (UInt32.le_refl tick)
  have within : (commands.filter (·.tick == tick)).Sublist (inOrder commands) :=
    List.sublist_mergeSort (fun first second third => by simpa using UInt32.le_trans)
      (fun first second => by simpa using UInt32.le_total first.tick second.tick) alike
      List.filter_sublist
  have stamped := within.filter (·.tick == tick)
  rw [List.filter_filter, List.filter_congr fun _ _ => Bool.and_self _] at stamped
  exact (stamped.eq_of_length ((inOrder_perm commands).filter _).length_eq.symm).symm

/-- Commands that ascend by their stamps are in order if those with one stamp come as they should. -/
theorem eq_inOrder {sorted commands : List Command}
    (ascending : sorted.Pairwise fun first second => first.tick ≤ second.tick)
    (same : ∀ tick, sorted.filter (·.tick == tick) = commands.filter (·.tick == tick)) :
    sorted = inOrder commands := by
  have queues : CommandQueue.mk sorted ascending = .mk (inOrder commands) (pairwise_inOrder commands) :=
    CommandQueue.ext_atTick fun tick => (same tick).trans (filter_tick_inOrder commands tick).symm
  exact congrArg CommandQueue.commands queues

theorem filter_inOrder (keep : Command → Bool) (commands : List Command) :
    (inOrder commands).filter keep = inOrder (commands.filter keep) := by
  refine eq_inOrder ((pairwise_inOrder commands).filter _) fun tick => ?_
  have swap (commands : List Command) : (commands.filter keep).filter (·.tick == tick) =
      (commands.filter (·.tick == tick)).filter keep := by
    rw [List.filter_filter, List.filter_filter]
    exact List.filter_congr fun _ _ => Bool.and_comm _ _
  rw [swap, swap, filter_tick_inOrder]

end Command

open Command (inOrder)

/-- A queue whose commands are in order has them in order after one more has come. -/
theorem CommandQueue.commands_push {queue : CommandQueue} {commands : List Command}
    (ordered : queue.commands = inOrder commands) (command : Command) :
    (queue.push command).commands = inOrder (commands ++ [command]) := by
  refine Command.eq_inOrder (queue.push command).ascending fun tick => ?_
  have pushed := queue.atTick_push command tick
  rw [CommandQueue.atTick, CommandQueue.atTick, ordered, Command.filter_tick_inOrder] at pushed
  rw [pushed, List.filter_append]

/-! ## Reports -/

/-- What was wrong with a command that failed. -/
def CommandOutcome.failure? : CommandOutcome → Option CommandError
  | .error error => some error
  | .ok _ => none

/-- The report on a tick counts the commands that ran, those of them that were stamped for an earlier
tick, and lists what was wrong with those that failed, in the order in which they ran. -/
structure TickLog.IsCounted (log : TickLog) : Prop where
  stale : log.report.stale = log.runs.countP (·.1.tick < log.report.tick)
  total : log.report.executed + log.report.skipped + log.report.failed = log.runs.length
  failures : log.report.failures = log.runs.filterMap fun run => CommandOutcome.failure? run.2

namespace Peer

variable {W : Type} [World W] (peer : Peer W) (scope : ScopeId) (state : ScopeState)

theorem length_outcomes : (peer.outcomes scope state).length = (state.queue.due state.next).length := by
  rw [outcomes, List.length_map, length_runCommands]

/-- The commands that run are those that are due, in the order of the queue. -/
theorem runs_logTick : (peer.logTick scope state).runs.map (·.1) = state.queue.due state.next :=
  List.map_fst_zip (length_outcomes peer scope state).ge

theorem isCounted_logTick : (peer.logTick scope state).IsCounted := by
  have ran := runs_logTick peer scope state
  have came : (peer.logTick scope state).runs.map (·.2) = peer.outcomes scope state :=
    List.map_snd_zip (length_outcomes peer scope state).le
  refine ⟨?_, ?_, ?_⟩
  · have counted : (peer.logTick scope state).report.stale =
        (state.queue.due state.next).countP (·.tick < state.next) := rfl
    rw [counted, ← ran, List.countP_map]
    rfl
  · have total := TickReport.total_ofOutcomes scope state.next
      (CommandQueue.countStale state.next (state.queue.due state.next)) (peer.outcomes scope state)
    rw [← came, List.length_map] at total
    have report : (peer.logTick scope state).report = .ofOutcomes scope state.next
        (CommandQueue.countStale state.next (state.queue.due state.next))
        ((peer.logTick scope state).runs.map (·.2)) := by
      rw [came]
      rfl
    rw [← total, ← report]
    rfl
  · have failures : (peer.logTick scope state).report.failures =
        (peer.outcomes scope state).filterMap CommandOutcome.failure? := by
      refine List.filterMap_congr fun outcome _ => ?_
      cases outcome <;> rfl
    rw [failures, ← came, List.filterMap_map]
    rfl

end Peer

/-! ## Accounts -/

/-- A command that a scope has taken in, and the tick that the scope was to simulate next. -/
structure Taking where
  command : Command
  next : Tick
  deriving DecidableEq

/-- The tick in which a command is to run: the one that it is stamped for, unless it came too late for
that. -/
def Taking.due (taking : Taking) : Tick := max taking.command.tick taking.next

/-- The command that a scope takes in, if it does. -/
def Moment.taking? (scope : ScopeId) : Moment → Option Taking
  | took (.command command) (some next) => if command.scope = scope then some { command, next } else none
  | _ => none

/-- The commands that a scope has taken in, in the order of their arrival. -/
def Chronicle.takings {W : Type} (chronicle : Chronicle W) (scope : ScopeId) : List Taking :=
  chronicle.moments.filterMap (Moment.taking? scope)

/-- A command that was taken in, and which of the ticks of its scope it has run in, if it has run. -/
structure Account where
  taking : Taking
  ran : Option Nat

/-- The commands of the accounts that show a run in one tick, or of those that show none, in the order
of their arrival. -/
def Account.commands (accounts : List Account) (ran : Option Nat) : List Command :=
  (accounts.filter (·.ran == ran)).map (·.taking.command)

/-- A scope that is to simulate its next tick now runs in it what waits and is stamped for it or
earlier; `count` ticks come before. -/
def Account.settle (tick : Tick) (count : Nat) (account : Account) : Account :=
  if account.ran = none ∧ account.taking.command.tick ≤ tick then { account with ran := some count }
  else account

/-- The accounts of a scope agree with the ticks that it has simulated and with its state. -/
structure Balanced (accounts : List Account) (ticks : List TickLog) (state : ScopeState) : Prop where
  /-- The queue holds what has not run. -/
  waits : state.queue.commands = inOrder (Account.commands accounts none)
  /-- What has not run is not overdue. -/
  pending : ∀ account ∈ accounts, account.ran = none →
    account.taking.next ≤ state.next ∧ state.next ≤ account.taking.due
  /-- A tick has run what the accounts say. -/
  runs : ∀ place log, ticks[place]? = some log →
    log.runs.map (·.1) = inOrder (Account.commands accounts (some place)) ∧ log.IsCounted
  /-- What has run did so in the tick in which it was due. -/
  due : ∀ account ∈ accounts, ∀ place, account.ran = some place →
    ∃ log, ticks[place]? = some log ∧ log.report.tick = account.taking.due

namespace Balanced

variable {accounts : List Account} {ticks : List TickLog} {state : ScopeState}

/-- A command that is taken in waits. -/
theorem take (balanced : Balanced accounts ticks state) (command : Command) :
    Balanced (accounts ++ [⟨⟨command, state.next⟩, none⟩]) ticks
      { state with queue := state.queue.push command } := by
  refine ⟨?_, ?_, fun place log here => ?_, ?_⟩
  · rw [CommandQueue.commands_push balanced.waits]
    simp [Account.commands, List.filter_append]
  · intro account member waits
    rcases List.mem_append.mp member with member | member
    · exact balanced.pending account member waits
    · rw [List.mem_singleton.mp member]
      exact ⟨UInt32.le_refl _, Tick.le_max_right _ _⟩
  · have same : Account.commands (accounts ++ [⟨⟨command, state.next⟩, none⟩]) (some place) =
        Account.commands accounts (some place) := by
      simp [Account.commands, List.filter_append]
    rw [same]
    exact balanced.runs place log here
  · intro account member place ran
    rcases List.mem_append.mp member with member | member
    · exact balanced.due account member place ran
    · rw [List.mem_singleton.mp member] at ran
      cases ran

/-! ### A tick -/

end Balanced

namespace Account

variable (accounts : List Account) (tick : Tick) (count : Nat)

@[simp] theorem taking_settle (account : Account) : (settle tick count account).taking = account.taking := by
  rw [settle]
  split <;> rfl

/-- Settling changes which tick a command has run in, if anything. -/
theorem commands_settle (ran : Option Nat) :
    Account.commands (accounts.map (settle tick count)) ran =
      (accounts.filter fun account => (settle tick count account).ran == ran).map
        (·.taking.command) := by
  rw [Account.commands, List.filter_map, List.map_map]
  exact List.map_congr_left fun account _ => congrArg Taking.command (taking_settle tick count account)

theorem filter_commands (keep : Command → Bool) (ran : Option Nat) :
    (Account.commands accounts ran).filter keep =
      (accounts.filter fun account => account.ran == ran && keep account.taking.command).map
        (·.taking.command) := by
  rw [Account.commands, List.filter_map, List.filter_filter]
  exact congrArg _ (List.filter_congr fun _ _ => Bool.and_comm _ _)

/-- What is stamped for later goes on waiting. -/
theorem commands_settle_none :
    Account.commands (accounts.map (settle tick count)) none =
      (Account.commands accounts none).filter (tick < ·.tick) := by
  rw [commands_settle, filter_commands]
  refine congrArg _ (List.filter_congr fun account _ => ?_)
  rw [settle]
  split
  next due => simp [due.2, UInt32.not_lt]
  next idle =>
    rcases account with ⟨taking, _ | place⟩
    · simpa [UInt32.not_le] using idle
    · rfl

/-- The rest of what waits runs. -/
theorem commands_settle_some (fresh : ∀ account ∈ accounts, account.ran ≠ some count) :
    Account.commands (accounts.map (settle tick count)) (some count) =
      (Account.commands accounts none).filter (·.tick ≤ tick) := by
  rw [commands_settle, filter_commands]
  refine congrArg _ (List.filter_congr fun account member => ?_)
  rw [settle]
  split
  next due => simp [due.1, due.2]
  next idle =>
    have apart := fresh account member
    rcases account with ⟨taking, _ | place⟩
    · simpa using idle
    · simpa using apart

theorem commands_settle_of_ne {place : Nat} (ne : place ≠ count) :
    Account.commands (accounts.map (settle tick count)) (some place) =
      Account.commands accounts (some place) := by
  rw [commands_settle, Account.commands]
  refine congrArg _ (List.filter_congr fun account _ => ?_)
  rw [settle]
  split
  next due => simp [due.1, Ne.symm ne]
  next => rfl

end Account

namespace Balanced

variable {accounts : List Account} {ticks : List TickLog} {state : ScopeState}

/-- No command has run in a tick that is still to come. -/
theorem fresh (balanced : Balanced accounts ticks state) :
    ∀ account ∈ accounts, account.ran ≠ some ticks.length := by
  intro account member ran
  obtain ⟨log, here, -⟩ := balanced.due account member _ ran
  exact absurd (List.getElem?_eq_some_iff.mp here).1 (Nat.lt_irrefl _)

/-- A tick runs what is due in it, and leaves the rest waiting. -/
theorem tick {W : Type} [World W] (balanced : Balanced accounts ticks state) (peer : Peer W)
    (scope : ScopeId) :
    Balanced (accounts.map (Account.settle state.next ticks.length))
      (ticks ++ [peer.logTick scope state]) (peer.stateAfter scope state) := by
  refine ⟨?_, ?_, fun place log here => ?_, ?_⟩
  · have left : (peer.stateAfter scope state).queue.commands =
        state.queue.commands.filter (state.next < ·.tick) := rfl
    rw [left, Account.commands_settle_none, balanced.waits, Command.filter_inOrder]
  · intro account member waits
    obtain ⟨before, held, rfl⟩ := List.mem_map.mp member
    rw [Account.settle] at waits ⊢
    split at waits
    next => cases waits
    next idle =>
      rw [if_neg idle]
      -- What waits is stamped for later, so the clock moves on by one tick, and not past the stamp.
      have early : state.next < before.taking.command.tick :=
        UInt32.not_le.mp fun due => idle ⟨waits, due⟩
      exact ⟨UInt32.le_trans (balanced.pending before held waits).1 (Tick.le_next _),
        UInt32.le_trans (Tick.next_le_of_lt early) (Tick.le_max_left _ _)⟩
  · by_cases last : place = ticks.length
    · subst last
      rw [List.getElem?_concat_length] at here
      cases here
      rw [Peer.runs_logTick, CommandQueue.due, balanced.waits, Command.filter_inOrder,
        Account.commands_settle_some _ _ _ balanced.fresh]
      exact ⟨rfl, Peer.isCounted_logTick peer scope state⟩
    · rw [List.getElem?_append, List.getElem?_singleton] at here
      split at here
      next => rw [Account.commands_settle_of_ne _ _ _ last]; exact balanced.runs place log here
      next beyond =>
        rw [if_neg (by omega)] at here
        cases here
  · intro account member place ran
    obtain ⟨before, held, rfl⟩ := List.mem_map.mp member
    rw [Account.settle] at ran ⊢
    split at ran
    next due =>
      obtain ⟨taken, above⟩ := balanced.pending before held due.1
      cases ran
      refine ⟨_, List.getElem?_concat_length, ?_⟩
      rw [if_pos due]
      exact UInt32.le_antisymm above (Tick.max_le due.2 taken)
    next idle =>
      obtain ⟨log, here, onTime⟩ := balanced.due before held place ran
      rw [if_neg idle]
      exact ⟨log, List.getElem?_append_left (List.getElem?_eq_some_iff.mp here).1 ▸ here, onTime⟩

/-- A scope that has simulated nothing yet keeps an open account of each command that it holds. -/
theorem start (state : ScopeState) :
    Balanced (state.queue.commands.map fun command => ⟨⟨command, state.next⟩, none⟩) [] state := by
  refine ⟨?_, ?_, nofun, ?_⟩
  · have all : Account.commands (state.queue.commands.map fun command => ⟨⟨command, state.next⟩, none⟩)
        none = state.queue.commands := by
      simp [Account.commands, List.filter_map, Function.comp_def]
    rw [all]
    exact Command.eq_inOrder state.queue.ascending fun _ => rfl
  · intro account member _
    obtain ⟨command, -, rfl⟩ := List.mem_map.mp member
    exact ⟨UInt32.le_refl _, Tick.le_max_right _ _⟩
  · intro account member place ran
    obtain ⟨command, -, rfl⟩ := List.mem_map.mp member
    cases ran

end Balanced

/-! ## Every run keeps accounts -/

namespace Chronicle

variable {W : Type} {scope : ScopeId} {start : ScopeState}

/-- The commands that a scope held at first, and those that it has taken in since, are accounted for. -/
def IsAccounted (scope : ScopeId) (start : ScopeState) (chronicle : Chronicle W) : Prop :=
  ∃ state accounts, chronicle.peer.scopes.get? scope = some state ∧
    accounts.map (·.taking) =
      (start.queue.commands.map fun command => ⟨command, start.next⟩) ++ chronicle.takings scope ∧
    Balanced accounts (chronicle.ticksOf scope) state

theorem IsAccounted.of_same {chronicle other : Chronicle W} (accounted : chronicle.IsAccounted scope start)
    (scopes : other.peer.scopes.get? scope = chronicle.peer.scopes.get? scope)
    (takings : other.takings scope = chronicle.takings scope)
    (ticks : other.ticksOf scope = chronicle.ticksOf scope) : other.IsAccounted scope start := by
  rw [IsAccounted, scopes, takings, ticks]
  exact accounted

theorem takings_take (chronicle : Chronicle W) (message : Inbound) (scope : ScopeId) :
    (chronicle.take message).takings scope = chronicle.takings scope ++
      (Moment.taking? scope (.took message (chronicle.peer.nextFor? message))).toList := by
  rw [takings, take, List.filterMap_append]
  rfl

theorem IsAccounted.take {chronicle : Chronicle W} (accounted : chronicle.IsAccounted scope start)
    (message : Inbound) : (chronicle.take message).IsAccounted scope start := by
  have ticks := ticksOf_take chronicle message scope
  have takings := takings_take chronicle message scope
  cases message with
  | command command =>
    by_cases own : command.scope = scope
    · subst own
      obtain ⟨state, accounts, found, kept, balanced⟩ := accounted
      have next : chronicle.peer.nextTick? command.scope = some state.next := by
        rw [Peer.nextTick?, found, Option.map_some]
      have here : (chronicle.take (.command command)).peer.scopes.get? command.scope =
          some { state with queue := state.queue.push command } := by
        refine (SortedMap.get?_modify_self chronicle.peer.scopes command.scope _).trans ?_
        rw [found, Option.map_some]
      refine ⟨_, _, here, ?_, ticks ▸ balanced.take command⟩
      rw [takings, Peer.nextFor?, next, List.map_append, kept, List.append_assoc, Moment.taking?,
        if_pos rfl]
      rfl
    · refine accounted.of_same (SortedMap.get?_modify_of_ne _ _ (Ne.symm own)) ?_ ticks
      rw [takings]
      cases chronicle.peer.nextFor? (.command command) <;> simp [Moment.taking?, own]
  | tickLimit limit =>
    exact accounted.of_same rfl (takings.trans (List.append_nil _)) ticks
  | opinion author bytes =>
    have core := Peer.core_receive_opinion chronicle.peer author bytes
    exact accounted.of_same (congrArg (fun core => core.scopes.get? scope) core)
      (takings.trans (List.append_nil _)) ticks
  | diverged divergence =>
    have core := Peer.core_receive_diverged chronicle.peer divergence
    exact accounted.of_same (congrArg (fun core => core.scopes.get? scope) core)
      (takings.trans (List.append_nil _)) ticks

variable [World W]

theorem takings_ask (chronicle : Chronicle W) (asked scope : ScopeId) :
    (chronicle.ask asked).takings scope = chronicle.takings scope := by
  simp [takings, ask, Moment.taking?]

theorem IsAccounted.ask {chronicle : Chronicle W} (accounted : chronicle.IsAccounted scope start)
    (asked : ScopeId) (idle : chronicle.peer.inbox.messages = []) :
    (chronicle.ask asked).IsAccounted scope start := by
  have takings := takings_ask chronicle asked scope
  rcases ask_cases_of idle asked scope with ⟨stays, same⟩ | ⟨state, ne, after, same⟩ |
    ⟨state, rfl, found, after, more⟩
  · exact accounted.of_same (by rw [stays]) takings same
  · refine accounted.of_same ?_ takings same
    rw [after, Peer.scopes_runTick, SortedMap.get?_insert_of_ne _ _ ne]
  · obtain ⟨held, accounts, found', kept, balanced⟩ := accounted
    obtain rfl : held = state := Option.some.inj (found'.symm.trans found)
    refine ⟨chronicle.peer.stateAfter asked held,
      accounts.map (Account.settle held.next (chronicle.ticksOf asked).length), ?_, ?_, ?_⟩
    · rw [after, Peer.scopes_runTick, SortedMap.get?_insert_self]
    · rw [takings, ← kept, List.map_map]
      exact List.map_congr_left fun account _ => Account.taking_settle _ _ account
    · rw [more]
      exact balanced.tick chronicle.peer asked

end Chronicle

end Lockstep
