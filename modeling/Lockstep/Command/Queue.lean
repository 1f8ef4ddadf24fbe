import Lockstep.Command.Basic

/-! # Command queues

The commands of one scope that wait for their tick, in the order in which they will run: by stamp, and
for equal stamps by arrival. What is due at a tick is therefore a front part of the queue, and a
command that arrives after its tick has passed is still due, as a stale one.
-/

namespace Lockstep

/-- Commands waiting for their tick, in the order in which they will run. -/
structure CommandQueue where
  commands : List Command
  ascending : commands.Pairwise fun a b => a.tick ≤ b.tick

namespace CommandQueue

def empty : CommandQueue := ⟨[], .nil⟩

instance : Inhabited CommandQueue := ⟨empty⟩

/-- Put a command behind those whose tick is not later. -/
def insertCommand (command : Command) : List Command → List Command
  | [] => [command]
  | head :: rest =>
    if head.tick ≤ command.tick then head :: insertCommand command rest else command :: head :: rest

theorem mem_insertCommand {command other : Command} {commands : List Command} :
    other ∈ insertCommand command commands ↔ other = command ∨ other ∈ commands := by
  induction commands with
  | nil => simp [insertCommand]
  | cons head rest ih =>
    rw [insertCommand]
    split
    · simp only [List.mem_cons, ih]
      exact ⟨fun h => by rcases h with h | h | h <;> simp [h], fun h => by rcases h with h | h | h <;> simp [h]⟩
    · simp

theorem pairwise_insertCommand (command : Command) {commands : List Command}
    (ascending : commands.Pairwise fun a b => a.tick ≤ b.tick) :
    (insertCommand command commands).Pairwise fun a b => a.tick ≤ b.tick := by
  induction commands with
  | nil => simp [insertCommand]
  | cons head rest ih =>
    obtain ⟨first, tail⟩ := List.pairwise_cons.mp ascending
    rw [insertCommand]
    split
    next before =>
      refine List.pairwise_cons.mpr ⟨fun other member => ?_, ih tail⟩
      rcases mem_insertCommand.mp member with rfl | member
      · exact before
      · exact first other member
    next after =>
      have below : command.tick ≤ head.tick := (UInt32.le_total _ _).resolve_left after
      refine List.pairwise_cons.mpr ⟨fun other member => ?_, ascending⟩
      rcases List.mem_cons.mp member with rfl | member
      · exact below
      · exact UInt32.le_trans below (first other member)

/-- Take in a command. -/
def push (queue : CommandQueue) (command : Command) : CommandQueue :=
  ⟨insertCommand command queue.commands, pairwise_insertCommand command queue.ascending⟩

def size (queue : CommandQueue) : Nat := queue.commands.length

def isEmpty (queue : CommandQueue) : Bool := queue.commands.isEmpty

/-- The stamp of the command that runs first. -/
def nextDue? (queue : CommandQueue) : Option Tick := queue.commands.head?.map (·.tick)

/-- The commands to run at a tick: those stamped for it or earlier. -/
def due (queue : CommandQueue) (tick : Tick) : List Command := queue.commands.filter (·.tick ≤ tick)

/-- The queue without the commands to run at a tick. -/
def later (queue : CommandQueue) (tick : Tick) : CommandQueue :=
  ⟨queue.commands.filter (tick < ·.tick), queue.ascending.filter _⟩

/-- How many commands were stamped for an earlier tick. -/
def countStale (tick : Tick) (commands : List Command) : Nat := commands.countP (·.tick < tick)

/-- The commands stamped for a tick, in the order of their arrival. -/
def atTick (queue : CommandQueue) (tick : Tick) : List Command := queue.commands.filter (·.tick == tick)

@[simp] theorem atTick_empty (tick : Tick) : empty.atTick tick = [] := rfl

theorem mem_push {queue : CommandQueue} {command other : Command} :
    other ∈ (queue.push command).commands ↔ other = command ∨ other ∈ queue.commands :=
  mem_insertCommand

/-- A command comes behind all others that are stamped for its tick. -/
theorem atTick_push (queue : CommandQueue) (command : Command) (tick : Tick) :
    (queue.push command).atTick tick = queue.atTick tick ++ [command].filter (·.tick == tick) := by
  obtain ⟨commands, ascending⟩ := queue
  simp only [atTick, push]
  induction commands with
  | nil => simp [insertCommand]
  | cons head rest ih =>
    obtain ⟨first, tail⟩ := List.pairwise_cons.mp ascending
    rw [insertCommand]
    split
    next => cases here : head.tick == tick <;> simp [here, ih tail]
    next after =>
      by_cases stamped : command.tick = tick
      · have none : (head :: rest).filter (·.tick == tick) = [] := by
          refine List.filter_eq_nil_iff.mpr fun other member => ?_
          have above : head.tick ≤ other.tick := by
            rcases List.mem_cons.mp member with rfl | member
            · exact UInt32.le_refl _
            · exact first other member
          subst stamped
          simp only [beq_iff_eq]
          intro same
          exact after (same ▸ above)
        rw [List.filter_cons, none]
        simp [stamped]
      · simp [List.filter_cons, stamped]

/-- With nothing stamped for an earlier tick, the commands due at a tick are those stamped for it. -/
theorem due_eq_atTick {queue : CommandQueue} {tick : Tick} (fresh : ∀ command ∈ queue.commands, tick ≤ command.tick) :
    queue.due tick = queue.atTick tick := by
  refine List.filter_congr fun command member => ?_
  have above := fresh command member
  simp only [Bool.beq_eq_decide_eq, decide_eq_decide]
  exact ⟨fun below => UInt32.le_antisymm below above, fun same => same ▸ UInt32.le_refl _⟩

theorem atTick_later (queue : CommandQueue) {tick later : Tick} (after : tick < later) :
    (queue.later tick).atTick later = queue.atTick later := by
  simp only [atTick, CommandQueue.later, List.filter_filter]
  refine List.filter_congr fun command _ => ?_
  cases same : command.tick == later with
  | false => simp
  | true => simpa [beq_iff_eq.mp same] using after

theorem countStale_eq_zero {tick : Tick} {commands : List Command} (fresh : ∀ command ∈ commands, tick ≤ command.tick) :
    countStale tick commands = 0 := by
  refine List.countP_eq_zero.mpr fun command member => ?_
  simpa [UInt32.not_lt] using fresh command member

/-- A command comes in front of commands that are all stamped later. -/
theorem insertCommand_of_lt {command : Command} {commands : List Command}
    (before : ∀ other ∈ commands, command.tick < other.tick) :
    insertCommand command commands = command :: commands := by
  cases commands with
  | nil => rfl
  | cons head rest =>
    have above := before head List.mem_cons_self
    rw [insertCommand, if_neg (UInt32.not_le.mpr above)]

theorem filter_insertCommand_of_neg {command : Command} {keep : Command → Bool}
    (dropped : keep command = false) (commands : List Command) :
    (insertCommand command commands).filter keep = commands.filter keep := by
  induction commands with
  | nil => simp [insertCommand, dropped]
  | cons head rest ih =>
    rw [insertCommand]
    split
    · rw [List.filter_cons, List.filter_cons, ih]
    · rw [List.filter_cons_of_neg (by simp [dropped])]

theorem filter_insertCommand_of_pos {command : Command} {keep : Command → Bool}
    (kept : keep command = true) {commands : List Command}
    (ascending : commands.Pairwise fun a b => a.tick ≤ b.tick) :
    (insertCommand command commands).filter keep = insertCommand command (commands.filter keep) := by
  induction commands with
  | nil => simp [insertCommand, kept]
  | cons head rest ih =>
    obtain ⟨first, tail⟩ := List.pairwise_cons.mp ascending
    rw [insertCommand]
    split
    next before =>
      cases here : keep head with
      | true =>
        rw [List.filter_cons_of_pos here, List.filter_cons_of_pos here, insertCommand, if_pos before, ih tail]
      | false =>
        rw [List.filter_cons_of_neg (by simp [here]), List.filter_cons_of_neg (by simp [here]), ih tail]
    next after =>
      have below : command.tick < head.tick := UInt32.not_le.mp after
      rw [List.filter_cons_of_pos kept, insertCommand_of_lt]
      intro other member
      rcases List.mem_cons.mp (List.mem_filter.mp member).1 with rfl | member
      · exact below
      · exact UInt32.lt_of_lt_of_le below (first other member)

/-- A command stamped for a later tick is not due. -/
theorem due_push (queue : CommandQueue) {command : Command} {tick : Tick} (after : tick < command.tick) :
    (queue.push command).due tick = queue.due tick :=
  filter_insertCommand_of_neg (decide_eq_false (UInt32.not_le.mpr after)) queue.commands

theorem later_push (queue : CommandQueue) {command : Command} {tick : Tick} (after : tick < command.tick) :
    (queue.push command).later tick = (queue.later tick).push command := by
  simp only [later, push, mk.injEq]
  exact filter_insertCommand_of_pos (decide_eq_true after) queue.ascending

theorem mem_later {queue : CommandQueue} {tick : Tick} {command : Command} :
    command ∈ (queue.later tick).commands ↔ command ∈ queue.commands ∧ tick < command.tick := by
  simp [later]

/-- A queue that takes in several commands holds them behind its own, tick by tick. -/
theorem atTick_foldl_push (queue : CommandQueue) (commands : List Command) (tick : Tick) :
    (commands.foldl push queue).atTick tick = queue.atTick tick ++ commands.filter (·.tick == tick) := by
  induction commands generalizing queue with
  | nil => simp
  | cons command commands ih =>
    rw [List.foldl_cons, ih, atTick_push, List.append_assoc, ← List.filter_append, List.singleton_append]

theorem mem_foldl_push {queue : CommandQueue} {commands : List Command} {other : Command} :
    other ∈ (commands.foldl push queue).commands ↔ other ∈ commands ∨ other ∈ queue.commands := by
  induction commands generalizing queue with
  | nil => simp
  | cons command commands ih =>
    rw [List.foldl_cons, ih, mem_push, List.mem_cons, or_left_comm, or_assoc]

/-- Of an empty queue that takes in commands for one tick, exactly these are due at the tick. -/
theorem due_foldl_push {commands : List Command} {tick : Tick} (stamped : ∀ command ∈ commands, command.tick = tick) :
    (commands.foldl push empty).due tick = commands := by
  have fresh : ∀ command ∈ (commands.foldl push empty).commands, tick ≤ command.tick := fun command member => by
    rw [stamped command ((mem_foldl_push.mp member).resolve_right List.not_mem_nil)]
    exact UInt32.le_refl tick
  rw [due_eq_atTick fresh, atTick_foldl_push, atTick_empty, List.nil_append, List.filter_eq_self]
  exact fun command member => beq_iff_eq.mpr (stamped command member)

theorem later_foldl_push {commands : List Command} {tick : Tick} (stamped : ∀ command ∈ commands, command.tick = tick) :
    (commands.foldl push empty).later tick = empty := by
  have none : ((commands.foldl push empty).later tick).commands = [] := by
    refine List.eq_nil_iff_forall_not_mem.mpr fun command member => ?_
    obtain ⟨held, after⟩ := mem_later.mp member
    rw [stamped command ((mem_foldl_push.mp held).resolve_right List.not_mem_nil)] at after
    exact UInt32.lt_irrefl tick after
  cases emptied : (commands.foldl push empty).later tick with
  | mk rest ascending =>
    rw [emptied] at none
    subst none
    rfl

/-- What is stamped for each tick determines a queue. -/
theorem ext_atTick {first second : CommandQueue} (same : ∀ tick, first.atTick tick = second.atTick tick) :
    first = second := by
  suffices lists : ∀ {xs ys : List Command}, (xs.Pairwise fun a b => a.tick ≤ b.tick) →
      (ys.Pairwise fun a b => a.tick ≤ b.tick) →
      (∀ tick, xs.filter (·.tick == tick) = ys.filter (·.tick == tick)) → xs = ys by
    have commands := lists first.ascending second.ascending same
    cases first
    cases second
    simpa using commands
  intro xs
  induction xs with
  | nil =>
    intro ys _ _ same
    cases ys with
    | nil => rfl
    | cons y ys => simpa using same y.tick
  | cons x xs ih =>
    intro ys sorted sorted' same
    cases ys with
    | nil => simpa using same x.tick
    | cons y ys =>
      obtain ⟨above, ascending⟩ := List.pairwise_cons.mp sorted
      obtain ⟨above', ascending'⟩ := List.pairwise_cons.mp sorted'
      have least {a b : Command} {as bs : List Command} (least : ∀ other ∈ as, a.tick ≤ other.tick)
          (same : ∀ tick, (a :: as).filter (·.tick == tick) = (b :: bs).filter (·.tick == tick)) :
          a.tick ≤ b.tick := by
        have member : b ∈ (a :: as).filter (·.tick == b.tick) := by simp [same]
        rcases List.mem_cons.mp (List.mem_filter.mp member).1 with rfl | member
        · exact UInt32.le_refl _
        · exact least b member
      have stamp : x.tick = y.tick :=
        UInt32.le_antisymm (least above same) (least above' fun tick => (same tick).symm)
      have heads := same x.tick
      simp only [List.filter_cons, stamp, beq_self_eq_true, if_true, List.cons.injEq] at heads
      obtain ⟨rfl, -⟩ := heads
      refine congrArg _ (ih ascending ascending' fun tick => ?_)
      have tails := same tick
      rw [List.filter_cons, List.filter_cons] at tails
      split at tails
      · exact (List.cons.inj tails).2
      · exact tails

end CommandQueue

end Lockstep
