import Lockstep.Proofs.Watch.Tidy
import Lockstep.Proofs.World.Lab

/-! # The stack of watches

Watches may be closed in any order, on any host: one that has no field to read, refuses to have one
written, or breaks down. Whatever is done (`Watched.play`), serial numbers ascend from the bottom of the
stack to its top, the lowest watch on a field is the one that is not shadowed, and a serial number
stands for one watch for good. Closing a watch closes it and those above it, the innermost first, and
nothing else (`Watched.keeps_stack_discipline`).
-/

namespace Lockstep

variable {W : Type}

/-! ## Runs -/

namespace Watched

/-- What is done to a buffer and to the world that its watches are on. -/
inductive Call (W : Type) where
  | beginWatch (handle : Handle) (scope : ScopeId) (target : Value) (index : Option Int32)
  | endWatch (serial now : Nat) (currentTick : ScopeId → Option Tick)
  | edit (change : W → W)
  | flush (now : Nat) (currentTick : ScopeId → Option Tick) (interval : FlushInterval) (force : Bool)
      (send : BufferedChange → Except CaptureError Bool)
  | removeScope (scope : ScopeId)

/-- Take a step. What an action did before it failed stays done. -/
def step (table : HandlerTable W) (watched : Watched W) : Call W → Watched W
  | .beginWatch handle scope target index =>
    (Watching.run (ChangeBuffer.beginWatch table handle scope target index) watched).2
  | .endWatch serial now currentTick =>
    (Watching.run (ChangeBuffer.endWatch table serial now currentTick) watched).2
  | .edit change => { watched with world := change watched.world }
  | .flush now currentTick interval force send => { watched with
      buffer :=
        (watched.buffer.flush table watched.world now currentTick interval force send).2 }
  | .removeScope scope => { watched with buffer := watched.buffer.removeScope scope }

/-- Take steps one after another. -/
def play (table : HandlerTable W) (watched : Watched W) (calls : List (Call W)) : Watched W :=
  calls.foldl (step table) watched

/-- The innermost watch has left the stack. -/
def popped (watched : Watched W) : Watched W :=
  { watched with buffer := { watched.buffer with watches := watched.buffer.watches.drop 1 } }

end Watched

namespace ChangeBuffer

variable {table : HandlerTable W} {buffer other : ChangeBuffer} {world : W} {watched : Watched W}
  {now : Nat} {currentTick : ScopeId → Option Tick} {watch innermost : OpenWatch}
  {above below closing rest : List OpenWatch}

/-! ## What a run keeps -/

/-- The lowest watch on a field is not shadowed, and serial numbers are given out in order. -/
structure Orderly (buffer : ChangeBuffer) : Prop where
  stacked : Stacked buffer.watches
  ascending : buffer.watches.Pairwise fun upper lower => lower.serial < upper.serial
  bounded : ∀ watch ∈ buffer.watches, watch.serial < buffer.nextSerial

/-- What comes of a buffer: a watch that is open later was open before, or has a serial number of its
own. -/
structure Succeeds (buffer later : ChangeBuffer) : Prop where
  orderly : later.Orderly
  serials : buffer.nextSerial ≤ later.nextSerial
  watches : ∀ watch ∈ later.watches, watch ∈ buffer.watches ∨ buffer.nextSerial ≤ watch.serial

namespace Orderly

theorem congr (orderly : buffer.Orderly) (sameWatches : other.watches = buffer.watches)
    (sameSerial : other.nextSerial = buffer.nextSerial) : other.Orderly where
  stacked := sameWatches ▸ orderly.stacked
  ascending := sameWatches ▸ orderly.ascending
  bounded := by
    rw [sameWatches, sameSerial]
    exact orderly.bounded

theorem opened (orderly : buffer.Orderly) (key : BufferKey) (handle : Handle) (target : Value)
    (before : Option Value) :
    (buffer.opened key handle target before (buffer.watches.any (·.key = key))).Orderly where
  stacked := ⟨rfl, orderly.stacked⟩
  ascending := List.pairwise_cons.mpr ⟨orderly.bounded, orderly.ascending⟩
  bounded := List.forall_mem_cons.mpr
    ⟨Nat.lt_succ_self _, fun watch open_ => Nat.lt_succ_of_lt (orderly.bounded watch open_)⟩

/-- Any upper part of the stack may go. -/
theorem dropped (orderly : buffer.Orderly) (stack : buffer.watches = above ++ below) :
    ({ buffer with watches := below } : ChangeBuffer).Orderly where
  stacked := by
    have stacked := orderly.stacked
    rw [stack] at stacked
    clear stack
    induction above with
    | nil => exact stacked
    | cons watch above ih => exact ih stacked.2
  ascending := by
    have ascending := orderly.ascending
    rw [stack] at ascending
    exact (List.pairwise_append.mp ascending).2.1
  bounded watch open_ := orderly.bounded watch (stack ▸ List.mem_append_right above open_)

/-- The serial number of a watch is that of none above it. -/
theorem above_ne (orderly : buffer.Orderly) (stack : buffer.watches = above ++ watch :: below) :
    ∀ upper ∈ above, upper.serial ≠ watch.serial := by
  have ascending := orderly.ascending
  rw [stack] at ascending
  intro upper open_
  exact Nat.ne_of_gt ((List.pairwise_append.mp ascending).2.2 upper open_ watch List.mem_cons_self)

end Orderly

theorem Stacked.shadowed_iff (stacked : Stacked (above ++ watch :: below)) :
    watch.shadowed = true ↔ ∃ lower ∈ below, lower.key = watch.key := by
  induction above with
  | nil =>
    rw [stacked.1, List.any_eq_true]
    simp only [decide_eq_true_eq]
  | cons upper above ih => exact ih stacked.2

namespace Succeeds

variable {later last : ChangeBuffer}

theorem of_eq (orderly : buffer.Orderly) (sameWatches : later.watches = buffer.watches)
    (sameSerial : later.nextSerial = buffer.nextSerial) : buffer.Succeeds later where
  orderly := orderly.congr sameWatches sameSerial
  serials := Nat.le_of_eq sameSerial.symm
  watches _ open_ := .inl (sameWatches ▸ open_)

theorem trans (first : buffer.Succeeds later) (second : later.Succeeds last) :
    buffer.Succeeds last where
  orderly := second.orderly
  serials := Nat.le_trans first.serials second.serials
  watches watch open_ := by
    rcases second.watches watch open_ with before | new
    · exact first.watches watch before
    · exact .inr (Nat.le_trans first.serials new)

end Succeeds

theorem succeeds_beginWatch (orderly : watched.buffer.Orderly) (handle : Handle) (scope : ScopeId)
    (target : Value) (index : Option Int32) : watched.buffer.Succeeds
      (stateAfter (beginWatch table handle scope target index watched)).buffer := by
  obtain ⟨buffer, world⟩ := watched
  have opens : Opens table handle target buffer world
      (stateAfter (beginWatch table handle scope target index ⟨buffer, world⟩)) :=
    opens_beginWatch handle scope target index
  have pushed {watch : OpenWatch} (new : watch.serial = buffer.nextSerial) :
      ∀ other ∈ watch :: buffer.watches, other ∈ buffer.watches ∨ buffer.nextSerial ≤ other.serial :=
    List.forall_mem_cons.mpr ⟨.inr (Nat.le_of_eq new.symm), fun _ before => .inl before⟩
  generalize stateAfter (beginWatch table handle scope target index ⟨buffer, world⟩) = left at opens
  cases opens with
  | refused | failed => exact .of_eq orderly rfl rfl
  | plain => exact ⟨orderly.opened _ _ _ _, Nat.le_succ _, pushed rfl⟩
  | @pending key field _ _ _ unwatched =>
    have confirmed : (buffer.confirm key (field.get world key.scope target key.index)).Orderly :=
      orderly.congr rfl rfl
    refine ⟨?_, Nat.le_succ _, pushed rfl⟩
    rw [← unwatched]
    exact confirmed.opened _ _ _ _

/-! ## Closing, the innermost first -/

/-- The innermost watch has left the stack and has been settled, however that ended. -/
def close (table : HandlerTable W) (now : Nat) (currentTick : ScopeId → Option Tick)
    (watched : Watched W) (watch : OpenWatch) : Watched W :=
  stateAfter (settle table now currentTick watch watched.popped)

/-- What is left when watches have been closed one after another. -/
def unwound (table : HandlerTable W) (now : Nat) (currentTick : ScopeId → Option Tick)
    (closing : List OpenWatch) (watched : Watched W) : Watched W :=
  closing.foldl (close table now currentTick) watched

section

variable (table) (now) (currentTick)

theorem stack_close (watched : Watched W) (watch : OpenWatch) :
    (close table now currentTick watched watch).buffer.watches = watched.buffer.watches.drop 1 ∧
      (close table now currentTick watched watch).buffer.nextSerial = watched.buffer.nextSerial :=
  have settled : close table now currentTick watched watch =
    stateAfter (settle table now currentTick watch ⟨watched.popped.buffer, watched.world⟩) := rfl
  stack_settle settled

theorem stack_unwound (stack : watched.buffer.watches = closing ++ rest) :
    (unwound table now currentTick closing watched).buffer.watches = rest ∧
      (unwound table now currentTick closing watched).buffer.nextSerial =
        watched.buffer.nextSerial := by
  induction closing generalizing watched with
  | nil => exact ⟨stack, rfl⟩
  | cons watch closing ih =>
    obtain ⟨popped, sameSerial⟩ := stack_close table now currentTick watched watch
    rw [stack] at popped
    obtain ⟨left, serials⟩ := ih popped
    exact ⟨left, serials.trans sameSerial⟩

/-- Watches are closed one after another, and the host breaks down on none of them. -/
def Endures : List OpenWatch → Watched W → Prop
  | [], _ => True
  | watch :: closing, watched =>
    (∀ breakdown after,
      settle table now currentTick watch watched.popped ≠ .error (.brokeDown breakdown) after) ∧
      Endures closing (close table now currentTick watched watch)

/-- The host breaks down on a watch: the others stay open. -/
theorem unwind_of_breaks {breakdown : Breakdown} {after : Watched W}
    (broke : settle table now currentTick watch watched.popped = .error (.brokeDown breakdown) after)
    (closing : List OpenWatch) :
    unwind table now currentTick (watch :: closing) watched = .error (.brokeDown breakdown) after := by
  rw [Watched.popped] at broke
  simp only [unwind, bind, EStateM.bind, Watching.editBuffer_eq, broke]

/-- However else settling a watch ends, the others are closed behind it. -/
theorem unwind_of_goes (goesOn : ∀ breakdown after,
      settle table now currentTick watch watched.popped ≠ .error (.brokeDown breakdown) after)
    (closing : List OpenWatch) :
    unwind table now currentTick (watch :: closing) watched =
      unwind table now currentTick closing (close table now currentTick watched watch) := by
  simp only [unwind, bind, EStateM.bind, Watching.editBuffer_eq, close]
  rw [Watched.popped] at goesOn ⊢
  cases settled : settle table now currentTick watch
      ⟨{ watched.buffer with watches := watched.buffer.watches.drop 1 }, watched.world⟩ with
  | ok outcome after => rfl
  | error error after =>
    cases error with
    | brokeDown breakdown => exact absurd settled (goesOn breakdown after)
    | _ => rfl

/-- Watches are closed to the last of them, or up to the first one on which the host breaks down. -/
theorem unwind_cases (closing : List OpenWatch) (watched : Watched W) :
    Endures table now currentTick closing watched ∧
        unwind table now currentTick closing watched =
          .ok () (unwound table now currentTick closing watched) ∨
      ∃ closed last left breakdown after, closing = closed ++ last :: left ∧
        Endures table now currentTick closed watched ∧
        settle table now currentTick last (unwound table now currentTick closed watched).popped =
          .error (.brokeDown breakdown) after ∧
        unwind table now currentTick closing watched = .error (.brokeDown breakdown) after := by
  induction closing generalizing watched with
  | nil => exact .inl ⟨trivial, rfl⟩
  | cons watch closing ih =>
    by_cases breaks : ∃ breakdown after,
        settle table now currentTick watch watched.popped = .error (.brokeDown breakdown) after
    · obtain ⟨breakdown, after, broke⟩ := breaks
      exact .inr ⟨[], watch, closing, breakdown, after, rfl, trivial, broke,
        unwind_of_breaks table now currentTick broke closing⟩
    · have goesOn : ∀ breakdown after,
          settle table now currentTick watch watched.popped ≠ .error (.brokeDown breakdown) after :=
        fun breakdown after broke => breaks ⟨breakdown, after, broke⟩
      rw [unwind_of_goes table now currentTick goesOn closing]
      rcases ih (close table now currentTick watched watch) with
        ⟨endures, done⟩ | ⟨closed, last, left, breakdown, after, rfl, endures, broke, stops⟩
      · exact .inl ⟨⟨goesOn, endures⟩, done⟩
      · exact .inr ⟨watch :: closed, last, left, breakdown, after, rfl, ⟨goesOn, endures⟩, broke, stops⟩

end

end ChangeBuffer

/-! ## What closing answers -/

/-- Whether an error is about the place of a watch in the stack. -/
def WatchError.isMisplaced : WatchError → Bool
  | crossed _ _ | closed _ => true
  | capture _ | rollback _ _ | brokeDown _ => false

/-- Whatever an action fails with, this holds of the world in which it started, of the error, and of the
world that it leaves. -/
def Watching.FailsWith {α : Type} (action : Watching W α) (holds : W → WatchError → W → Prop) : Prop :=
  ∀ ⦃watched error after⦄, action watched = .error error after → holds watched.world error after.world

/-- An action that does not fail and leaves the world alone. -/
def Watching.IsQuiet {α : Type} (action : Watching W α) : Prop :=
  ∀ watched, ∃ value buffer, action watched = .ok value ⟨buffer, watched.world⟩

namespace Watching.IsQuiet

variable {α β : Type}

theorem pure (value : α) : (Pure.pure value : Watching W α).IsQuiet :=
  fun watched => ⟨value, watched.buffer, rfl⟩

theorem editBuffer (f : ChangeBuffer → ChangeBuffer) : (editBuffer f : Watching W Unit).IsQuiet :=
  fun _ => ⟨(), _, rfl⟩

theorem bind {first : Watching W α} {next : α → Watching W β} (head : first.IsQuiet)
    (tail : ∀ value, (next value).IsQuiet) : (first >>= next).IsQuiet := by
  intro watched
  obtain ⟨value, buffer, ran⟩ := head watched
  obtain ⟨result, buffer', ran'⟩ := tail value ⟨buffer, watched.world⟩
  refine ⟨result, buffer', ?_⟩
  simp only [Bind.bind, EStateM.bind, ran, ran']

end Watching.IsQuiet

namespace Watching.FailsWith

variable {α β : Type} {holds : W → WatchError → W → Prop}

theorem of_isQuiet {action : Watching W α} (quiet : action.IsQuiet) : action.FailsWith holds := by
  intro watched error after failed
  obtain ⟨_, _, succeeded⟩ := quiet watched
  cases succeeded.symm.trans failed

/-- What fails behind quiet steps fails in the world in which they started. -/
theorem after {first : Watching W α} {next : α → Watching W β} (head : first.IsQuiet)
    (tail : ∀ value, (next value).FailsWith holds) : (first >>= next).FailsWith holds := by
  intro watched error after failed
  obtain ⟨value, buffer, ran⟩ := head watched
  simp only [Bind.bind, EStateM.bind, ran] at failed
  exact @tail value ⟨buffer, watched.world⟩ error after failed

/-- Quiet steps behind others add no errors. -/
theorem bind {first : Watching W α} {next : α → Watching W β} (head : first.FailsWith holds)
    (tail : ∀ value, (next value).IsQuiet) : (first >>= next).FailsWith holds := by
  intro watched error after failed
  simp only [Bind.bind, EStateM.bind] at failed
  cases ran : first watched with
  | ok value middle =>
    obtain ⟨_, _, succeeded⟩ := tail value middle
    rw [ran] at failed
    cases succeeded.symm.trans failed
  | error cause middle =>
    rw [ran] at failed
    cases failed
    exact head ran

end Watching.FailsWith

/-- The host breaks down when the field of a watch is put back to some value. -/
def OpenWatch.BreaksDown (watch : OpenWatch) (table : HandlerTable W) (world : W) (breakdown : Breakdown)
    (next : W) : Prop :=
  ∃ id field value, table.field watch.handle = .ok (id, field) ∧
    field.set watch.key.scope watch.target watch.key.index value world =
      .error (.brokeDown breakdown) next

/-- An error that is not about the stack, and tells of a breakdown only where the host has broken down. -/
def OpenWatch.Faults (watch : OpenWatch) (table : HandlerTable W) (world : W) (error : WatchError)
    (next : W) : Prop :=
  error.isMisplaced = false ∧
    ∀ breakdown, error = .brokeDown breakdown → watch.BreaksDown table world breakdown next

namespace ChangeBuffer

variable {table : HandlerTable W} {watched : Watched W} {now : Nat}
  {currentTick : ScopeId → Option Tick} {watch innermost : OpenWatch} {above below : List OpenWatch}

theorem failsWith_write {id : HandlerId} {field : FieldHandler W}
    (known : table.field watch.handle = .ok (id, field)) (value : Value) :
    (Watching.write field watch.key.scope watch.target watch.key.index value).FailsWith
      (watch.Faults table) := by
  intro watched error after failed
  rw [Watching.write] at failed
  split at failed
  next => cases failed
  next =>
    cases failed
    exact ⟨rfl, fun _ same => by cases same⟩
  next breakdown next written =>
    cases failed
    refine ⟨rfl, fun other same => ?_⟩
    cases same
    exact ⟨id, field, value, known, written⟩

/-- Settling a watch fails on an unknown handle, or on the host. -/
theorem failsWith_settle (table : HandlerTable W) (now : Nat) (currentTick : ScopeId → Option Tick)
    (watch : OpenWatch) : (settle table now currentTick watch).FailsWith (watch.Faults table) := by
  have answers (outcome : WatchOutcome) :
      (pure outcome : Watching W WatchOutcome).FailsWith (watch.Faults table) := .of_isQuiet (.pure outcome)
  unfold settle
  split
  next => exact answers _
  next =>
    split
    next error unknown =>
      rintro _ _ _ ⟨⟩
      exact ⟨rfl, fun _ same => by cases same⟩
    next id field known =>
      have back (value : Value) := failsWith_write known value
      refine .after (fun watched => ⟨_, watched.buffer, rfl⟩) fun _ =>
        .after (fun watched => ⟨_, watched.buffer, rfl⟩) fun _ => ?_
      split
      next change found =>
        split
        next before after =>
          dsimp only
          split
          next => exact .after (.editBuffer _) fun _ => (back _).bind fun _ => .pure _
          next => exact (back _).bind fun _ => .pure _
        next => exact answers _
      next fresh =>
        split
        next before after =>
          split
          next => exact answers _
          next => exact (back _).bind fun _ => (Watching.IsQuiet.editBuffer _).bind fun _ => .pure _
        next => exact answers _

/-- A watch with others above it is closed with them, and what is above is told. -/
theorem endWatch_above (orderly : watched.buffer.Orderly)
    (stack : watched.buffer.watches = innermost :: above ++ watch :: below) :
    endWatch table watch.serial now currentTick watched =
      (unwind table now currentTick (innermost :: above ++ [watch]) >>= fun _ =>
        throw (.crossed innermost.serial watch.serial)) watched := by
  obtain ⟨buffer, world⟩ := watched
  have stack : buffer.watches = (innermost :: above) ++ watch :: below := stack
  have others := orderly.above_ne stack
  have unmet : ¬ ∃ upper ∈ innermost :: above, decide (upper.serial = watch.serial) = true :=
    fun ⟨upper, open_, same⟩ => others upper open_ (of_decide_eq_true same)
  have found : buffer.watches.findIdx (·.serial = watch.serial) = (innermost :: above).length := by
    rw [stack, List.findIdx_append, if_neg (mt List.findIdx_lt_length.mp unmet), List.findIdx_cons,
      decide_eq_true rfl, cond_true, Nat.zero_add]
  have open_ : ((innermost :: above) ++ watch :: below).any (·.serial = watch.serial) = true :=
    List.any_eq_true.mpr ⟨watch, List.mem_append_right _ List.mem_cons_self, decide_eq_true rfl⟩
  rw [endWatch_crossed stack (others innermost List.mem_cons_self) open_, found, stack,
    List.take_length_add_append]
  rfl

/-- A watch that is not open is not closed. -/
theorem endWatch_absent {serial : Nat}
    (absent : ∀ watch ∈ watched.buffer.watches, watch.serial ≠ serial) :
    endWatch table serial now currentTick watched = .error (.closed serial) watched := by
  obtain ⟨buffer, world⟩ := watched
  cases stack : buffer.watches with
  | nil => exact endWatch_idle stack
  | cons innermost rest =>
    rw [stack] at absent
    have unmet : (innermost :: rest).any (·.serial = serial) = false :=
      List.any_eq_false.mpr fun watch open_ same => absent watch open_ (of_decide_eq_true same)
    exact endWatch_closed stack (absent innermost List.mem_cons_self) unmet

/-- How closing an open watch ends: as settling it does, if it is the innermost one; with an error that
tells the innermost one, if it is not; or as settling the first watch on which the host breaks down, and
the watches below that one stay open. -/
inductive Ends (table : HandlerTable W) (now : Nat) (currentTick : ScopeId → Option Tick)
    (watched : Watched W) (above : List OpenWatch) (watch : OpenWatch) :
    EStateM.Result WatchError (Watched W) WatchOutcome → Prop
  | innermost : above = [] → Ends table now currentTick watched above watch
      (settle table now currentTick watch watched.popped)
  | crossed {innermost : OpenWatch} {deeper : List OpenWatch} : above = innermost :: deeper →
      Endures table now currentTick (above ++ [watch]) watched →
      Ends table now currentTick watched above watch
        (.error (.crossed innermost.serial watch.serial)
          (unwound table now currentTick (above ++ [watch]) watched))
  | brokeDown {closed left : List OpenWatch} {last : OpenWatch} {breakdown : Breakdown}
      {after : Watched W} : above ++ [watch] = closed ++ last :: left →
      Endures table now currentTick closed watched →
      settle table now currentTick last (unwound table now currentTick closed watched).popped =
        .error (.brokeDown breakdown) after →
      Ends table now currentTick watched above watch (.error (.brokeDown breakdown) after)

theorem ends_endWatch (orderly : watched.buffer.Orderly)
    (stack : watched.buffer.watches = above ++ watch :: below) :
    Ends table now currentTick watched above watch
      (endWatch table watch.serial now currentTick watched) := by
  cases above with
  | nil =>
    have popped : watched.popped = ⟨{ watched.buffer with watches := below }, watched.world⟩ := by
      rw [Watched.popped, stack]
      rfl
    have settled : endWatch table watch.serial now currentTick watched =
        settle table now currentTick watch watched.popped := by
      rw [popped]
      exact endWatch_innermost stack rfl
    rw [settled]
    exact .innermost rfl
  | cons innermost deeper =>
    rw [endWatch_above orderly stack]
    simp only [bind, EStateM.bind]
    rcases unwind_cases table now currentTick (innermost :: deeper ++ [watch]) watched with
      ⟨endures, done⟩ | ⟨closed, last, left, breakdown, after, parts, endures, broke, stops⟩
    · rw [done]
      exact .crossed rfl endures
    · rw [stops]
      exact .brokeDown parts endures broke

/-- Closing one more watch. -/
theorem unwound_snoc (closed : List OpenWatch) (last : OpenWatch) (watched : Watched W) :
    unwound table now currentTick (closed ++ [last]) watched =
      stateAfter
        (settle table now currentTick last (unwound table now currentTick closed watched).popped) :=
  List.foldl_append

namespace Ends

variable {result : EStateM.Result WatchError (Watched W) WatchOutcome}

/-- The watches that are closed are an upper part of the stack. -/
theorem unwinds (ends : Ends table now currentTick watched above watch result) :
    ∃ closed left, above ++ [watch] = closed ++ left ∧
      stateAfter result = unwound table now currentTick closed watched := by
  cases ends with
  | innermost none => exact ⟨[watch], [], by rw [none]; rfl, rfl⟩
  | crossed => exact ⟨_, [], (List.append_nil _).symm, rfl⟩
  | @brokeDown closed left last breakdown after parts endures broke =>
    refine ⟨closed ++ [last], left, parts.trans (List.append_cons ..), ?_⟩
    rw [unwound_snoc, broke]

end Ends

theorem succeeds_endWatch (orderly : watched.buffer.Orderly) (serial : Nat) :
    watched.buffer.Succeeds
      (stateAfter (endWatch table serial now currentTick watched)).buffer := by
  by_cases open_ : ∃ watch ∈ watched.buffer.watches, watch.serial = serial
  · obtain ⟨watch, open_, rfl⟩ := open_
    obtain ⟨above, below, stack⟩ := List.append_of_mem open_
    obtain ⟨closed, left, parts, after⟩ := (ends_endWatch orderly stack).unwinds
    have upper : watched.buffer.watches = closed ++ (left ++ below) := by
      rw [stack, List.append_cons, parts, List.append_assoc]
    obtain ⟨watches, serials⟩ := stack_unwound table now currentTick upper
    rw [after]
    exact {
      orderly := (orderly.dropped upper).congr watches serials
      serials := Nat.le_of_eq serials.symm
      watches := fun other kept => by
        rw [watches] at kept
        exact .inl (upper ▸ List.mem_append_right closed kept) }
  · rw [endWatch_absent fun watch member same => open_ ⟨watch, member, same⟩]
    exact .of_eq orderly rfl rfl

end ChangeBuffer

namespace Watched

variable {table : HandlerTable W} {watched : Watched W}

theorem succeeds_step (orderly : watched.buffer.Orderly) (call : Call W) :
    watched.buffer.Succeeds (watched.step table call).buffer := by
  cases call with
  | beginWatch handle scope target index =>
    rw [step, Watching.snd_run]
    exact ChangeBuffer.succeeds_beginWatch orderly handle scope target index
  | endWatch serial now currentTick =>
    rw [step, Watching.snd_run]
    exact ChangeBuffer.succeeds_endWatch orderly serial
  | edit | flush | removeScope => exact .of_eq orderly rfl rfl

theorem succeeds_play (orderly : watched.buffer.Orderly) (calls : List (Call W)) :
    watched.buffer.Succeeds (watched.play table calls).buffer := by
  induction calls generalizing watched with
  | nil => exact .of_eq orderly rfl rfl
  | cons call calls ih =>
    have stepped : watched.buffer.Succeeds (watched.step table call).buffer :=
      succeeds_step orderly call
    exact stepped.trans (ih stepped.orderly)

/-- What opening a watch answers: an error, and no watch is open that was not before; or a serial number,
and the watch that it stands for is on top, now and ever after the only one. -/
inductive Opening (table : HandlerTable W) (watched : Watched W) (handle : Handle) (scope : ScopeId)
    (target : Value) (index : Option Int32) : Except WatchError Nat × Watched W → Prop
  | refused {error : WatchError} {after : Watched W} : after.buffer.watches = watched.buffer.watches →
      Opening table watched handle scope target index (.error error, after)
  | opened {watch : OpenWatch} {after : Watched W} :
      after.buffer.watches = watch :: watched.buffer.watches →
      watch.handle = handle → watch.key.scope = scope → watch.target = target →
      watch.key.index = index →
      (∀ calls, ∀ other ∈ (after.play table calls).buffer.watches,
        other.serial = watch.serial → other = watch) →
      Opening table watched handle scope target index (.ok watch.serial, after)

/-- What closing an open watch answers: what settling it does, if it is the innermost one, and which one
is, if it is not. Either way the watches down to it have been closed one after another and those below
are open as before. Where the host breaks down, in the setter of one of these watches, the closing ends
with that one. -/
inductive Closing (table : HandlerTable W) (watched : Watched W) (now : Nat)
    (currentTick : ScopeId → Option Tick) (above : List OpenWatch) (watch : OpenWatch)
    (below : List OpenWatch) : Except WatchError WatchOutcome × Watched W → Prop
  | innermost {answer : Except WatchError WatchOutcome} {after : Watched W} : above = [] →
      Watching.run (ChangeBuffer.settle table now currentTick watch) watched.popped = (answer, after) →
      (∀ error, answer = .error error → watch.Faults table watched.world error after.world) →
      after = ChangeBuffer.unwound table now currentTick (above ++ [watch]) watched →
      after.buffer.watches = below →
      Closing table watched now currentTick above watch below (answer, after)
  | crossed {innermost : OpenWatch} {deeper : List OpenWatch} {after : Watched W} :
      above = innermost :: deeper →
      ChangeBuffer.Endures table now currentTick (above ++ [watch]) watched →
      after = ChangeBuffer.unwound table now currentTick (above ++ [watch]) watched →
      after.buffer.watches = below →
      Closing table watched now currentTick above watch below
        (.error (.crossed innermost.serial watch.serial), after)
  | brokeDown {closed left : List OpenWatch} {last : OpenWatch} {breakdown : Breakdown}
      {after : Watched W} : above ++ [watch] = closed ++ last :: left →
      ChangeBuffer.Endures table now currentTick closed watched →
      ChangeBuffer.settle table now currentTick last
          (ChangeBuffer.unwound table now currentTick closed watched).popped =
        .error (.brokeDown breakdown) after →
      last.BreaksDown table (ChangeBuffer.unwound table now currentTick closed watched).world breakdown
        after.world →
      after = ChangeBuffer.unwound table now currentTick (closed ++ [last]) watched →
      after.buffer.watches = left ++ below →
      Closing table watched now currentTick above watch below (.error (.brokeDown breakdown), after)

/-- On a host that does not break down, a watch is closed with all that are above it, and only then. -/
theorem Closing.reaches {table : HandlerTable W} {watched : Watched W} {now : Nat}
    {currentTick : ScopeId → Option Tick} {above below : List OpenWatch} {watch : OpenWatch}
    {result : Except WatchError WatchOutcome × Watched W}
    (closing : Closing table watched now currentTick above watch below result)
    (sound : ∀ other ∈ above ++ [watch], ∀ world breakdown next,
      ¬ other.BreaksDown table world breakdown next) :
    result.2 = ChangeBuffer.unwound table now currentTick (above ++ [watch]) watched ∧
      result.2.buffer.watches = below := by
  cases closing with
  | innermost _ _ _ unwound left => exact ⟨unwound, left⟩
  | crossed _ _ unwound left => exact ⟨unwound, left⟩
  | @brokeDown closed left last breakdown after parts _ _ breaks =>
    have among : last ∈ above ++ [watch] := parts ▸ List.mem_append_right closed List.mem_cons_self
    exact absurd breaks (sound last among _ _ _)

/-- What holds of the open watches, and of opening and closing watches from there on. -/
structure Disciplined (table : HandlerTable W) (watched : Watched W) : Prop where
  /-- Serial numbers ascend from the bottom of the stack to its top. -/
  ascending : (watched.buffer.watches.reverse.map (·.serial)).Pairwise (· < ·)
  /-- A watch is shadowed if there is one below it on the same field. -/
  shadowed {above below : List OpenWatch} {watch : OpenWatch} :
    watched.buffer.watches = above ++ watch :: below →
      (watch.shadowed = true ↔ ∃ lower ∈ below, lower.key = watch.key)
  opens (handle : Handle) (scope : ScopeId) (target : Value) (index : Option Int32) :
    Opening table watched handle scope target index
      (Watching.run (ChangeBuffer.beginWatch table handle scope target index) watched)
  closes {above below : List OpenWatch} {watch : OpenWatch} (now : Nat)
    (currentTick : ScopeId → Option Tick) : watched.buffer.watches = above ++ watch :: below →
      Closing table watched now currentTick above watch below
        (Watching.run (ChangeBuffer.endWatch table watch.serial now currentTick) watched)
  /-- A watch that is not open is not closed, and nothing changes. -/
  closed {serial : Nat} (now : Nat) (currentTick : ScopeId → Option Tick) :
    (∀ watch ∈ watched.buffer.watches, watch.serial ≠ serial) →
      Watching.run (ChangeBuffer.endWatch table serial now currentTick) watched =
        (.error (.closed serial), watched)
  /-- A watch that has been closed does not open again. -/
  gone {serial : Nat} : serial < watched.buffer.nextSerial →
    (∀ watch ∈ watched.buffer.watches, watch.serial ≠ serial) →
      ∀ calls, ∀ watch ∈ (watched.play table calls).buffer.watches, watch.serial ≠ serial

/-- Whatever is done, no other watch gets the serial number of the innermost one. -/
theorem alone_play {watch : OpenWatch} {rest : List OpenWatch} (orderly : watched.buffer.Orderly)
    (stack : watched.buffer.watches = watch :: rest) (calls : List (Call W)) :
    ∀ other ∈ (watched.play table calls).buffer.watches,
      other.serial = watch.serial → other = watch := by
  intro other open_ same
  have ascending := orderly.ascending
  have old : watch.serial < watched.buffer.nextSerial :=
    orderly.bounded watch (stack ▸ List.mem_cons_self)
  rw [stack] at ascending
  rcases (succeeds_play orderly calls).watches other open_ with before | new
  · rw [stack] at before
    rcases List.mem_cons.mp before with here | deeper
    · exact here
    · exact absurd same (Nat.ne_of_lt (List.rel_of_pairwise_cons ascending deeper))
  · rw [same] at new
    exact absurd old (Nat.not_lt_of_le new)

theorem opening_beginWatch (orderly : watched.buffer.Orderly) (handle : Handle) (scope : ScopeId)
    (target : Value) (index : Option Int32) : Opening table watched handle scope target index
      (Watching.run (ChangeBuffer.beginWatch table handle scope target index) watched) := by
  have succeeds : watched.buffer.Succeeds
      (stateAfter (ChangeBuffer.beginWatch table handle scope target index watched)).buffer :=
    ChangeBuffer.succeeds_beginWatch orderly handle scope target index
  obtain ⟨buffer, world⟩ := watched
  rw [Watching.run]
  rcases ChangeBuffer.beginWatch_cases table buffer world handle scope target index with
    ⟨error, refused⟩ | ⟨key, field, keyed, which⟩
  · rw [refused]
    exact .refused rfl
  · obtain ⟨-, -, sameScope, sameIndex⟩ := ChangeBuffer.keyOf_eq_ok keyed
    rcases which with ⟨-, opened⟩ | ⟨-, change, -, ⟨next, -, opened⟩ | ⟨-, next, -, error, failed⟩⟩
    · rw [opened] at succeeds ⊢
      exact .opened rfl rfl sameScope rfl sameIndex (alone_play succeeds.orderly rfl)
    · rw [opened] at succeeds ⊢
      exact .opened rfl rfl sameScope rfl sameIndex (alone_play succeeds.orderly rfl)
    · rw [failed]
      exact .refused rfl

theorem closing_endWatch {above below : List OpenWatch} {watch : OpenWatch}
    (orderly : watched.buffer.Orderly) (stack : watched.buffer.watches = above ++ watch :: below)
    (now : Nat) (currentTick : ScopeId → Option Tick) :
    Closing table watched now currentTick above watch below
      (Watching.run (ChangeBuffer.endWatch table watch.serial now currentTick) watched) := by
  have ends : ChangeBuffer.Ends table now currentTick watched above watch _ :=
    ChangeBuffer.ends_endWatch orderly stack
  have upper : watched.buffer.watches = (above ++ [watch]) ++ below := by
    rw [stack, List.append_cons]
  rw [Watching.run]
  generalize ChangeBuffer.endWatch table watch.serial now currentTick watched = result at ends ⊢
  cases ends with
  | innermost none =>
    have closed : stateAfter (ChangeBuffer.settle table now currentTick watch watched.popped) =
        ChangeBuffer.unwound table now currentTick (above ++ [watch]) watched := by
      rw [none]
      rfl
    have left := (ChangeBuffer.stack_unwound table now currentTick upper).1
    rw [← closed] at left
    have faults := ChangeBuffer.failsWith_settle table now currentTick watch
    cases settled : ChangeBuffer.settle table now currentTick watch watched.popped with
    | ok outcome after =>
      rw [settled] at closed left
      refine .innermost none ?_ (fun _ failed => by cases failed) closed left
      rw [Watching.run, settled]
    | error error after =>
      rw [settled] at closed left
      refine .innermost none ?_ (fun _ failed => ?_) closed left
      · rw [Watching.run, settled]
      · cases failed
        exact @faults watched.popped error after settled
  | crossed top endures => exact .crossed top endures rfl (ChangeBuffer.stack_unwound _ _ _ upper).1
  | @brokeDown closed left last breakdown after parts endures broke =>
    have unwound : after = ChangeBuffer.unwound table now currentTick (closed ++ [last]) watched := by
      rw [ChangeBuffer.unwound_snoc, broke]
      rfl
    have fault := ChangeBuffer.failsWith_settle table now currentTick last broke
    rw [parts, List.append_cons, List.append_assoc] at upper
    refine .brokeDown parts endures broke (fault.2 breakdown rfl) unwound ?_
    rw [unwound]
    exact (ChangeBuffer.stack_unwound _ _ _ upper).1

theorem disciplined (orderly : watched.buffer.Orderly) : watched.Disciplined table where
  ascending := by
    rw [List.map_reverse, List.pairwise_reverse, List.pairwise_map]
    exact orderly.ascending
  shadowed stack := ChangeBuffer.Stacked.shadowed_iff (stack ▸ orderly.stacked)
  opens := opening_beginWatch orderly
  closes now currentTick stack := closing_endWatch orderly stack now currentTick
  closed now currentTick absent := by
    rw [Watching.run, ChangeBuffer.endWatch_absent absent]
  gone old absent calls watch open_ := by
    rcases (succeeds_play orderly calls).watches watch open_ with before | new
    · exact absent watch before
    · exact Nat.ne_of_gt (Nat.lt_of_lt_of_le old new)

/-- Whatever is done to a buffer that starts out empty, on whatever host, its watches are a stack. -/
theorem keeps_stack_discipline (table : HandlerTable W) (world : W) (calls : List (Call W)) :
    (play table ⟨{}, world⟩ calls).Disciplined table := by
  have empty : ChangeBuffer.Orderly {} :=
    ⟨True.intro, List.Pairwise.nil, fun _ open_ => by cases open_⟩
  exact disciplined (succeeds_play empty calls).orderly

-- The third watch is on the field of the first, which is closed while the other two are open.
example :
    let watched := play levelTable ⟨{}, {}⟩ [
      .beginWatch 0 .global (.scalar (.i32 1)) none, .beginWatch 0 .global (.scalar (.i32 2)) none,
      .beginWatch 0 .global (.scalar (.i32 1)) none, .edit levelEdit]
    let ended := Watching.run (ChangeBuffer.endWatch levelTable 0 0 fun _ => none) watched
    watched.buffer.watches.map (·.shadowed) = [true, false, false] ∧
      ended.1.toOption = none ∧ ended.2.buffer.watches.isEmpty ∧ ended.2.buffer.size = 1 := by
  decide +kernel

end Watched

end Lockstep
