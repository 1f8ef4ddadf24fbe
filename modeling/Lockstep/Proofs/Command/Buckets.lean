import Lockstep.Command.Buckets
import Lockstep.Command.Queue
import Mathlib.Data.List.Basic

/-! # Buckets beside a queue

Buckets answer whatever they are asked as a queue does (`CommandBuckets.answers_eq`): read one behind
another they hold its commands in the order of the queue, none of them is empty, and the count that is
kept on the side is the size of the queue (`CommandBuckets.Holds`).
-/

namespace Lockstep

namespace CommandQueue

/-- A command goes behind a front part whose commands are not stamped later. -/
theorem insertCommand_append {command : Command} {front : List Command}
    (notLater : ∀ other ∈ front, other.tick ≤ command.tick) (rest : List Command) :
    insertCommand command (front ++ rest) = front ++ insertCommand command rest := by
  induction front with
  | nil => rfl
  | cons head front ih =>
    obtain ⟨first, notLater⟩ := List.forall_mem_cons.mp notLater
    rw [List.cons_append, insertCommand, if_pos first, ih notLater, List.cons_append]

theorem length_insertCommand (command : Command) (commands : List Command) :
    (insertCommand command commands).length = commands.length + 1 := by
  induction commands with
  | nil => rfl
  | cons head rest ih =>
    rw [insertCommand]
    split
    · rw [List.length_cons, ih, List.length_cons]
    · rfl

theorem size_push (queue : CommandQueue) (command : Command) :
    (queue.push command).size = queue.size + 1 :=
  length_insertCommand command queue.commands

/-- Every command is either due or stays. -/
theorem length_due_add_size_later (queue : CommandQueue) (tick : Tick) :
    (queue.due tick).length + (queue.later tick).size = queue.size := by
  have others : (queue.later tick).commands = queue.commands.filter fun command =>
      !decide (command.tick ≤ tick) :=
    List.filter_congr fun command _ => by rw [← decide_not, decide_eq_decide, UInt32.not_le]
  rw [size, others]
  exact (List.length_eq_length_filter_add _).symm

theorem countStale_append (tick : Tick) (first second : List Command) :
    countStale tick (first ++ second) = countStale tick first + countStale tick second :=
  List.countP_append

end CommandQueue

open CommandQueue (insertCommand countStale)

/-- A bucket has commands in it, and they are stamped for its tick. -/
structure BucketFilled (bucket : Tick × List Command) : Prop where
  filled : bucket.2 ≠ []
  stamped : ∀ command ∈ bucket.2, command.tick = bucket.1

namespace CommandBuckets

variable {buckets : CommandBuckets} {queue : CommandQueue} {entries : List (Tick × List Command)}
  {byTick : SortedMap Tick (List Command)} {tick : Tick}

/-- The commands of buckets, one bucket behind another. -/
def contents (entries : List (Tick × List Command)) : List Command := entries.flatMap (·.2)

theorem contents_cons (bucket : Tick × List Command) (entries : List (Tick × List Command)) :
    contents (bucket :: entries) = bucket.2 ++ contents entries :=
  List.flatMap_cons

theorem mem_contents {command : Command} :
    command ∈ contents entries ↔ ∃ bucket ∈ entries, command ∈ bucket.2 :=
  List.mem_flatMap

/-! ## Taking in -/

theorem contents_insert (filled : ∀ bucket ∈ byTick.entries, BucketFilled bucket) (command : Command) :
    contents (byTick.insert command.tick
        ((byTick.get? command.tick).getD [] ++ [command])).entries =
      insertCommand command (contents byTick.entries) := by
  obtain ⟨entries, sorted⟩ := byTick
  simp only [SortedMap.insert, SortedMap.get?]
  induction entries with
  | nil => rfl
  | cons bucket entries ih =>
    obtain ⟨below, ascending⟩ := List.pairwise_cons.mp sorted
    obtain ⟨first, rest⟩ := List.forall_mem_cons.mp filled
    rw [contents_cons, SortedMap.insertEntry, List.find?_cons]
    cases order : compare command.tick bucket.1 with
    | lt =>
      have behind : ∀ other ∈ bucket.2 ++ contents entries, command.tick < other.tick := by
        have before := compareOfLessAndEq_eq_lt.mp order
        intro other member
        rcases List.mem_append.mp member with here | later
        · exact first.stamped other here ▸ before
        · obtain ⟨bucket', listed, held⟩ := mem_contents.mp later
          rw [(rest bucket' listed).stamped other held]
          exact UInt32.lt_trans before (compareOfLessAndEq_eq_lt.mp (below bucket' listed))
      have absent : entries.find? (fun entry => compare command.tick entry.1 == .eq) = none :=
        SortedMap.find?_eq_none_of_lt fun entry member =>
          Std.TransCmp.lt_trans order (below entry member)
      rw [CommandQueue.insertCommand_of_lt behind]
      simp only [absent]
      rfl
    | eq =>
      have same : command.tick = bucket.1 := Std.LawfulEqCmp.eq_of_compare order
      have notLater : ∀ other ∈ bucket.2, other.tick ≤ command.tick := fun other member => by
        rw [first.stamped other member, same]
        exact UInt32.le_refl _
      have behind : ∀ other ∈ contents entries, command.tick < other.tick := by
        intro other later
        obtain ⟨bucket', listed, held⟩ := mem_contents.mp later
        rw [(rest bucket' listed).stamped other held, same]
        exact compareOfLessAndEq_eq_lt.mp (below bucket' listed)
      rw [CommandQueue.insertCommand_append notLater, CommandQueue.insertCommand_of_lt behind,
        contents_cons]
      exact List.append_assoc bucket.2 [command] (contents entries)
    | gt =>
      have before : compare bucket.1 command.tick = .lt := Std.OrientedCmp.lt_of_gt order
      have notLater : ∀ other ∈ bucket.2, other.tick ≤ command.tick := fun other member => by
        rw [first.stamped other member]
        exact UInt32.le_of_lt (compareOfLessAndEq_eq_lt.mp before)
      rw [CommandQueue.insertCommand_append notLater, ← ih ascending rest, contents_cons]
      rfl

theorem filled_insert (filled : ∀ bucket ∈ byTick.entries, BucketFilled bucket) (command : Command) :
    ∀ bucket ∈ (byTick.insert command.tick
        ((byTick.get? command.tick).getD [] ++ [command])).entries, BucketFilled bucket := by
  intro bucket member
  rcases SortedMap.eq_or_mem_of_mem_insertEntry member with rfl | before
  · refine ⟨List.append_ne_nil_of_right_ne_nil _ (List.cons_ne_nil _ _), fun other member => ?_⟩
    rcases List.mem_append.mp member with old | new
    · cases found : byTick.get? command.tick with
      | none =>
        rw [found] at old
        cases old
      | some bucket =>
        rw [found] at old
        exact (filled _ (SortedMap.mem_entries_iff.mpr found)).stamped other old
    · rw [List.mem_singleton.mp new]
  · exact filled bucket before

/-! ## Taking out -/

/-- A tick that has another behind it. -/
theorem lt_following_iff {next : Tick} (following : following? tick = some next) (stamp : Tick) :
    stamp < next ↔ stamp ≤ tick := by
  unfold following? at following
  split at following
  next fits =>
    cases following
    rw [UInt32.lt_iff_toNat_lt, UInt32.le_iff_toNat_le, UInt32.toNat_add, UInt32.toNat_one,
      Nat.mod_eq_of_lt fits, Nat.lt_succ_iff]
  next => cases following

/-- Every tick is at most one that has none behind it. -/
theorem le_of_following (last : following? tick = none) (stamp : Tick) : stamp ≤ tick := by
  unfold following? at last
  split at last
  next => cases last
  next full =>
    rw [UInt32.le_iff_toNat_le]
    exact Nat.le_of_lt_succ (Nat.lt_of_lt_of_le stamp.toNat_lt (Nat.not_lt.mp full))

theorem entries_splitBehind (byTick : SortedMap Tick (List Command)) (tick : Tick) :
    (splitBehind byTick tick).1.entries = byTick.entries.filter (·.1 ≤ tick) ∧
      (splitBehind byTick tick).2.entries = byTick.entries.filter (tick < ·.1) := by
  unfold splitBehind
  cases following : following? tick with
  | some next =>
    constructor
    · exact List.filter_congr fun bucket _ =>
        decide_eq_decide.mpr (lt_following_iff following bucket.1)
    · refine List.filter_congr fun bucket _ => decide_eq_decide.mpr ?_
      rw [← UInt32.not_lt, lt_following_iff following, UInt32.not_le]
  | none =>
    have all := le_of_following following
    constructor
    · exact (List.filter_eq_self.mpr fun bucket _ => decide_eq_true (all bucket.1)).symm
    · exact (List.filter_eq_nil_iff.mpr fun bucket _ later =>
        UInt32.not_lt.mpr (all bucket.1) (of_decide_eq_true later)).symm

/-- Which commands a test on stamps selects can be told by the buckets. -/
theorem contents_filter (keep : Tick → Bool) (filled : ∀ bucket ∈ entries, BucketFilled bucket) :
    contents (entries.filter fun bucket => keep bucket.1) =
      (contents entries).filter fun command => keep command.tick := by
  induction entries with
  | nil => rfl
  | cons bucket entries ih =>
    obtain ⟨first, rest⟩ := List.forall_mem_cons.mp filled
    rw [contents_cons, List.filter_append, ← ih rest]
    cases kept : keep bucket.1 with
    | true =>
      have own : bucket.2.filter (fun command => keep command.tick) = bucket.2 :=
        List.filter_eq_self.mpr fun command member => by rw [first.stamped command member, kept]
      rw [List.filter_cons, if_pos kept, contents_cons, own]
    | false =>
      have own : bucket.2.filter (fun command => keep command.tick) = [] :=
        List.filter_eq_nil_iff.mpr fun command member => by
          rw [first.stamped command member, kept]
          exact Bool.false_ne_true
      rw [List.filter_cons, kept, if_neg Bool.false_ne_true, own, List.nil_append]

/-- The stale commands of a bucket are all or none of them. -/
theorem countStale_bucket {bucket : Tick × List Command} (filled : BucketFilled bucket) (tick : Tick) :
    countStale tick bucket.2 = if bucket.1 < tick then bucket.2.length else 0 := by
  split
  next stale =>
    exact List.countP_eq_length.mpr fun command member => by
      rw [filled.stamped command member]
      exact decide_eq_true stale
  next fresh =>
    exact List.countP_eq_zero.mpr fun command member stale => by
      rw [filled.stamped command member] at stale
      exact fresh (of_decide_eq_true stale)

theorem foldl_takeBucket (tick : Tick) (filled : ∀ bucket ∈ entries, BucketFilled bucket)
    (due : DueCommands) : entries.foldl (DueCommands.takeBucket tick) due =
      ⟨due.commands ++ contents entries, due.stale + countStale tick (contents entries)⟩ := by
  induction entries generalizing due with
  | nil => rw [contents, List.flatMap_nil, List.append_nil]; rfl
  | cons bucket entries ih =>
    obtain ⟨first, rest⟩ := List.forall_mem_cons.mp filled
    rw [List.foldl_cons, ih rest, contents_cons, CommandQueue.countStale_append,
      countStale_bucket first, DueCommands.takeBucket, List.append_assoc, ← Nat.add_assoc]
    split
    · rfl
    · rfl

/-! ## Call by call -/

/-- Buckets that hold the commands of a queue. -/
structure Holds (buckets : CommandBuckets) (queue : CommandQueue) : Prop where
  commands : contents buckets.byTick.entries = queue.commands
  filled : ∀ bucket ∈ buckets.byTick.entries, BucketFilled bucket
  count : buckets.count = queue.size

theorem holds_empty : Holds {} .empty := ⟨rfl, nofun, rfl⟩

namespace Holds

theorem push (holds : buckets.Holds queue) (command : Command) :
    (buckets.push command).Holds (queue.push command) where
  commands := (contents_insert holds.filled command).trans (congrArg _ holds.commands)
  filled := filled_insert holds.filled command
  count := by
    rw [CommandQueue.size_push, CommandBuckets.push, holds.count]

theorem isEmpty (holds : buckets.Holds queue) : buckets.isEmpty = queue.isEmpty := by
  rw [CommandBuckets.isEmpty, holds.count, CommandQueue.size, CommandQueue.isEmpty]
  cases queue.commands with
  | nil => rfl
  | cons => rfl

theorem nextDue? (holds : buckets.Holds queue) : buckets.nextDue? = queue.nextDue? := by
  rw [CommandBuckets.nextDue?, CommandQueue.nextDue?, ← holds.commands, SortedMap.keys]
  have filled := holds.filled
  generalize buckets.byTick.entries = entries at filled
  cases entries with
  | nil => rfl
  | cons bucket entries =>
    have first := filled bucket List.mem_cons_self
    obtain ⟨tick, commands⟩ := bucket
    cases commands with
    | nil => exact absurd rfl first.filled
    | cons command commands =>
      exact congrArg some (first.stamped command List.mem_cons_self).symm

/-- What is taken for a tick is what is due. -/
theorem fst_takeDue (holds : buckets.Holds queue) (tick : Tick) :
    (buckets.takeDue tick).1 = ⟨queue.due tick, countStale tick (queue.due tick)⟩ := by
  have filled : ∀ bucket ∈ (splitBehind buckets.byTick tick).1.entries, BucketFilled bucket := by
    rw [(entries_splitBehind buckets.byTick tick).1]
    exact fun bucket member => holds.filled bucket (List.mem_filter.mp member).1
  have due : contents (splitBehind buckets.byTick tick).1.entries = queue.due tick := by
    rw [(entries_splitBehind buckets.byTick tick).1, contents_filter (· ≤ tick) holds.filled,
      holds.commands]
    rfl
  have taken := foldl_takeBucket tick filled {}
  rw [due, List.nil_append, Nat.zero_add] at taken
  exact taken

theorem snd_takeDue (holds : buckets.Holds queue) (tick : Tick) :
    (buckets.takeDue tick).2.Holds (queue.later tick) where
  commands := by
    rw [takeDue, (entries_splitBehind buckets.byTick tick).2, contents_filter (tick < ·) holds.filled,
      holds.commands]
    rfl
  filled := by
    rw [takeDue, (entries_splitBehind buckets.byTick tick).2]
    exact fun bucket member => holds.filled bucket (List.mem_filter.mp member).1
  count := by
    have left : (buckets.takeDue tick).2.count =
      buckets.count - (buckets.takeDue tick).1.commands.length := rfl
    rw [left, holds.fst_takeDue, holds.count, ← queue.length_due_add_size_later tick,
      Nat.add_sub_cancel_left]

/-- What is taken off the count is not more than the count. -/
theorem length_takeDue (holds : buckets.Holds queue) (tick : Tick) :
    (buckets.takeDue tick).1.commands.length ≤ buckets.count := by
  rw [holds.fst_takeDue, holds.count, ← queue.length_due_add_size_later tick]
  exact Nat.le_add_right _ _

end Holds

end CommandBuckets

/-- What is asked of commands that wait. -/
inductive QueueCall where
  | push (command : Command)
  | takeDue (tick : Tick)
  | clear
  | size
  | isEmpty
  | nextDue

/-- What is answered. -/
inductive QueueAnswer where
  | done
  | taken (due : DueCommands)
  | size (count : Nat)
  | isEmpty (empty : Bool)
  | nextDue (tick : Option Tick)

namespace CommandBuckets

/-- Do what is asked. -/
def take (buckets : CommandBuckets) : QueueCall → QueueAnswer × CommandBuckets
  | .push command => (.done, buckets.push command)
  | .takeDue tick => (.taken (buckets.takeDue tick).1, (buckets.takeDue tick).2)
  | .clear => (.done, buckets.clear)
  | .size => (.size buckets.size, buckets)
  | .isEmpty => (.isEmpty buckets.isEmpty, buckets)
  | .nextDue => (.nextDue buckets.nextDue?, buckets)

/-- The answers to calls, one after another. -/
def answers : CommandBuckets → List QueueCall → List QueueAnswer
  | _, [] => []
  | buckets, call :: calls => (buckets.take call).1 :: (buckets.take call).2.answers calls

end CommandBuckets

namespace CommandQueue

/-- Do what is asked. -/
def take (queue : CommandQueue) : QueueCall → QueueAnswer × CommandQueue
  | .push command => (.done, queue.push command)
  | .takeDue tick => (.taken ⟨queue.due tick, countStale tick (queue.due tick)⟩, queue.later tick)
  | .clear => (.done, empty)
  | .size => (.size queue.size, queue)
  | .isEmpty => (.isEmpty queue.isEmpty, queue)
  | .nextDue => (.nextDue queue.nextDue?, queue)

/-- The answers to calls, one after another. -/
def answers : CommandQueue → List QueueCall → List QueueAnswer
  | _, [] => []
  | queue, call :: calls => (queue.take call).1 :: (queue.take call).2.answers calls

end CommandQueue

namespace CommandBuckets

variable {buckets : CommandBuckets} {queue : CommandQueue}

/-- A call is answered as by the queue. -/
theorem Holds.take (holds : buckets.Holds queue) (call : QueueCall) :
    (buckets.take call).1 = (queue.take call).1 ∧ (buckets.take call).2.Holds (queue.take call).2 := by
  cases call with
  | push command => exact ⟨rfl, holds.push command⟩
  | takeDue tick => exact ⟨congrArg _ (holds.fst_takeDue tick), holds.snd_takeDue tick⟩
  | clear => exact ⟨rfl, holds_empty⟩
  | size => exact ⟨congrArg _ holds.count, holds⟩
  | isEmpty => exact ⟨congrArg _ holds.isEmpty, holds⟩
  | nextDue => exact ⟨congrArg _ holds.nextDue?, holds⟩

theorem Holds.answers (holds : buckets.Holds queue) (calls : List QueueCall) :
    buckets.answers calls = queue.answers calls := by
  induction calls generalizing buckets queue with
  | nil => rfl
  | cons call calls ih =>
    obtain ⟨alike, held⟩ := holds.take call
    rw [CommandBuckets.answers, CommandQueue.answers, alike, ih held]

/-- Buckets answer whatever they are asked as a queue does. -/
theorem answers_eq (calls : List QueueCall) :
    answers {} calls = CommandQueue.empty.answers calls :=
  holds_empty.answers calls

-- At the last tick everything is taken.
example :
    let stamped (tick : Tick) : Command := { handler := 0, tick, scope := .global, payload := [] }
    let taken := ((push {} (stamped 0xFFFFFFFF)).push (stamped 3)).takeDue 0xFFFFFFFF
    taken.1 = ⟨[stamped 3, stamped 0xFFFFFFFF], 1⟩ ∧ taken.2.isEmpty ∧ taken.2.nextDue? = none := by
  decide

end CommandBuckets

end Lockstep
