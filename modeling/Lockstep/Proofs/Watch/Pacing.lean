import Lockstep.Proofs.Watch.Flushing
import Lockstep.Proofs.Watch.Stack

/-! # The pace of flushing

Of a change that is edited again and again, a flush sends the last state at intervals. What has happened
to the changes is kept on a log (`Pacing.log`): when each was made, and when it was sent. Between two
sends of one field, and from the making of a change to its first send, at least the field's interval
passes, also where the change is dropped in between and made anew; a change that waits to be sent is
offered by every flush from then on, and one that is refused goes on waiting as it was
(`Pacing.keeps_pace`).
-/

namespace Lockstep

variable {W : Type}

/-! ## Time -/

/-- The time in milliseconds, and the tick of every scope. -/
structure Instant where
  now : Nat
  tick : ScopeId → Tick

namespace Instant

def currentTick (instant : Instant) (scope : ScopeId) : Option Tick := some (instant.tick scope)

/-- Neither the clock nor a scope goes back. -/
structure Before (earlier later : Instant) : Prop where
  now : earlier.now ≤ later.now
  tick (scope : ScopeId) : (earlier.tick scope).toNat ≤ (later.tick scope).toNat

theorem Before.refl (instant : Instant) : instant.Before instant :=
  ⟨Nat.le_refl _, fun _ => Nat.le_refl _⟩

end Instant

/-- An interval has passed from one instant to another, by the clock or by the ticks of a scope. -/
def FlushInterval.HasPassed (interval : FlushInterval) (scope : ScopeId) (earlier later : Instant) :
    Prop :=
  match interval with
  | .millis count => count.toNat ≤ later.now - earlier.now
  | .ticks count => count.toNat ≤ (later.tick scope).toNat - (earlier.tick scope).toNat

theorem FlushInterval.HasPassed.mono {interval : FlushInterval} {scope : ScopeId}
    {first earlier later : Instant} (passed : interval.HasPassed scope earlier later)
    (before : first.Before earlier) : interval.HasPassed scope first later := by
  cases interval with
  | millis count => exact Nat.le_trans passed (Nat.sub_le_sub_left before.now _)
  | ticks count => exact Nat.le_trans passed (Nat.sub_le_sub_left (before.tick scope) _)

/-- The interval of a field: its own, or else the default one. -/
def HandlerTable.intervalOf (table : HandlerTable W) (default : FlushInterval) (key : BufferKey) :
    FlushInterval :=
  match table.get? key.handler with
  | some (.field field) => field.flushInterval.getD default
  | _ => default

/-! ## Runs -/

/-- A change of a field has been made, or has been sent. -/
structure Mark where
  key : BufferKey
  instant : Instant
  isSend : Bool

/-- The same has happened to changes of several fields at one instant. -/
def marks (keys : List BufferKey) (instant : Instant) (isSend : Bool) : List Mark :=
  keys.map fun key => { key, instant, isSend }

/-- What watches act on, and what has happened to the changes, the latest first. -/
structure Pacing (W : Type) where
  watched : Watched W
  log : List Mark := []

namespace Pacing

/-- How changes are sent. -/
abbrev Sender := BufferedChange → Except CaptureError Bool

/-- What is done, and when, where that matters. -/
inductive Call (W : Type) where
  | beginWatch (handle : Handle) (scope : ScopeId) (target : Value) (index : Option Int32)
  | edit (change : W → W)
  | endWatch (serial : Nat) (instant : Instant)
  | flush (instant : Instant) (send : Sender)
  | removeScope (scope : ScopeId)

namespace Call

def instant? : Call W → Option Instant
  | endWatch _ instant | flush instant _ => some instant
  | beginWatch _ _ _ _ | edit _ | removeScope _ => none

/-- What is asked of the buffer; no flush is forced. -/
def asked (interval : FlushInterval) : Call W → Watched.Call W
  | beginWatch handle scope target index => .beginWatch handle scope target index
  | edit change => .edit change
  | endWatch serial instant => .endWatch serial instant.now instant.currentTick
  | flush instant send => .flush instant.now instant.currentTick interval false send
  | removeScope scope => .removeScope scope

end Call

section

variable (table : HandlerTable W) (interval : FlushInterval)

/-- A flush that is not forced. -/
def flushAt (watched : Watched W) (instant : Instant) (send : Sender) :
    List (Except CaptureError Bool) × ChangeBuffer :=
  watched.buffer.flush table watched.world instant.now instant.currentTick interval false send

/-- The fields whose changes a flush tries to send, and how that ends. -/
def attempts (watched : Watched W) (instant : Instant) (send : Sender) :
    List (BufferKey × Except CaptureError Bool) :=
  watched.buffer.entries.filterMap fun entry =>
    (ChangeBuffer.flushChange table watched.world instant.now instant.currentTick interval false send
      entry.2).2.map (entry.1, ·)

/-- The fields whose changes a flush sends. -/
def sentKeys (watched : Watched W) (instant : Instant) (send : Sender) : List BufferKey :=
  ((attempts table interval watched instant send).filter (·.2.isOk)).map (·.1)

/-- The fields that have a change and had none before. -/
def madeKeys (before after : ChangeBuffer) : List BufferKey :=
  (after.entries.map (·.1)).filter fun key => (before.change? key).isNone

/-- What a call marks of the changes that there are before and after it. -/
def marksOf (before after : Watched W) : Call W → List Mark
  | .endWatch _ instant => marks (madeKeys before.buffer after.buffer) instant false
  | .flush instant send => marks (sentKeys table interval before instant send) instant true
  | .beginWatch _ _ _ _ | .edit _ | .removeScope _ => []

/-- Take a step, and keep what it marks. -/
def step (pacing : Pacing W) (call : Call W) : Pacing W :=
  let watched := pacing.watched.step table (call.asked interval)
  { watched, log := marksOf table interval pacing.watched watched call ++ pacing.log }

/-- Take steps one after another. -/
def play (pacing : Pacing W) (calls : List (Call W)) : Pacing W :=
  calls.foldl (step table interval) pacing

end

section

variable (table : HandlerTable W) (interval : FlushInterval) (pacing : Pacing W)

theorem step_beginWatch (handle : Handle) (scope : ScopeId) (target : Value) (index : Option Int32) :
    pacing.step table interval (.beginWatch handle scope target index) = { pacing with
      watched :=
        stateAfter (ChangeBuffer.beginWatch table handle scope target index pacing.watched) } := by
  rw [step, Call.asked, Watched.step, Watching.snd_run]
  rfl

theorem step_endWatch (serial : Nat) (instant : Instant) {after : Watched W}
    (ended : stateAfter (ChangeBuffer.endWatch table serial instant.now instant.currentTick
      pacing.watched) = after) :
    pacing.step table interval (.endWatch serial instant) = {
      watched := after
      log := marks (madeKeys pacing.watched.buffer after.buffer) instant false ++ pacing.log } := by
  rw [step, Call.asked, Watched.step, Watching.snd_run, ended]
  rfl

theorem step_flush (instant : Instant) (send : Sender) :
    pacing.step table interval (.flush instant send) = {
      watched := { pacing.watched with
        buffer := (flushAt table interval pacing.watched instant send).2 }
      log := marks (sentKeys table interval pacing.watched instant send) instant true ++
        pacing.log } := rfl

end

/-- What was last done to the change of a field. -/
def last? (pacing : Pacing W) (key : BufferKey) : Option Mark := pacing.log.find? (·.key = key)

end Pacing

/-! ## Stamps -/

/-- A change has the stamps of another. -/
def BufferedChange.StampedAs (change old : BufferedChange) : Prop :=
  change.stamp = old.stamp ∧ change.stampTick = old.stampTick

/-- A change has been stamped at an instant. -/
def BufferedChange.StampedAt (change : BufferedChange) (scope : ScopeId) (instant : Instant) : Prop :=
  change.stamp = instant.now ∧ change.stampTick = instant.tick scope

theorem BufferedChange.StampedAs.at {change old : BufferedChange} {scope : ScopeId} {instant : Instant}
    (same : change.StampedAs old) (stamped : old.StampedAt scope instant) :
    change.StampedAt scope instant :=
  ⟨same.1.trans stamped.1, same.2.trans stamped.2⟩

namespace ChangeBuffer

variable {table : HandlerTable W} {buffer later : ChangeBuffer} {world : W} {key : BufferKey}
  {change : BufferedChange} {instant : Instant} {interval : FlushInterval} {send : Pacing.Sender}

/-- No change is dropped, those that there were have the stamps that they had, and those that are new
are stamped at an instant. -/
structure Retains (instant : Instant) (buffer later : ChangeBuffer) : Prop where
  grows {key : BufferKey} : later.change? key = none → buffer.change? key = none
  stamps {key : BufferKey} {change : BufferedChange} : later.change? key = some change →
    (∃ old, buffer.change? key = some old ∧ change.StampedAs old) ∨
      buffer.change? key = none ∧ change.StampedAt key.scope instant

namespace Retains

theorem refl (instant : Instant) (buffer : ChangeBuffer) : Retains instant buffer buffer where
  grows none := none
  stamps found := .inl ⟨_, found, rfl, rfl⟩

theorem trans {last : ChangeBuffer} (first : Retains instant buffer later)
    (second : Retains instant later last) : Retains instant buffer last where
  grows none := first.grows (second.grows none)
  stamps found := by
    rcases second.stamps found with ⟨old, before, same⟩ | ⟨fresh, stamped⟩
    · rcases first.stamps before with ⟨older, before', same'⟩ | ⟨fresh, stamped⟩
      · exact .inl ⟨older, before', same.1.trans same'.1, same.2.trans same'.2⟩
      · exact .inr ⟨fresh, same.at stamped⟩
    · exact .inr ⟨first.grows fresh, stamped⟩

/-- An update that keeps stamps. -/
theorem update {f : BufferedChange → BufferedChange} (same : ∀ old, (f old).StampedAs old)
    (instant : Instant) (buffer : ChangeBuffer) (key : BufferKey) :
    Retains instant buffer (buffer.update key f) where
  grows {other} none := by
    by_cases here : other = key
    · subst here
      rw [change?_update_self] at none
      exact Option.map_eq_none_iff.mp none
    · rwa [change?_update_of_ne f here] at none
  stamps found := by
    obtain ⟨old, before, rfl | ⟨rfl, rfl⟩⟩ := change?_of_update found
    · exact .inl ⟨_, before, rfl, rfl⟩
    · exact .inl ⟨old, before, same old⟩

theorem add (fresh : buffer.change? key = none) (stamped : change.StampedAt key.scope instant) :
    Retains instant buffer (buffer.add key change) where
  grows {other} none := by
    by_cases here : other = key
    · rw [here]
      exact fresh
    · rwa [change?_add_of_ne here] at none
  stamps found := by
    rcases change?_of_add fresh found with ⟨rfl, rfl⟩ | found
    · exact .inr ⟨fresh, stamped⟩
    · exact .inl ⟨_, found, rfl, rfl⟩

/-- Which watches are open does not matter. -/
theorem congr {other : ChangeBuffer} (retains : Retains instant buffer later)
    (same : other.entries = later.entries) : Retains instant buffer other where
  grows none := retains.grows (by rwa [change?, same] at none)
  stamps found := retains.stamps (by rwa [change?, same] at found)

end Retains

/-- Opening a watch makes no change, and stamps none. -/
theorem stampedAs_beginWatch {handle : Handle} {scope : ScopeId} {target : Value}
    {index : Option Int32}
    (found : (stateAfter (beginWatch table handle scope target index ⟨buffer, world⟩)).buffer.change?
      key = some change) : ∃ old, buffer.change? key = some old ∧ change.StampedAs old := by
  have opens : Opens table handle target buffer world
      (stateAfter (beginWatch table handle scope target index ⟨buffer, world⟩)) :=
    opens_beginWatch handle scope target index
  have confirmed {other : BufferKey} {live : Option Value}
      (found : (buffer.confirm other live).change? key = some change) :
      ∃ old, buffer.change? key = some old ∧ change.StampedAs old := by
    obtain ⟨old, before, rfl | ⟨-, rfl⟩⟩ := change?_of_update found
    · exact ⟨_, before, rfl, rfl⟩
    · exact ⟨old, before, rfl, rfl⟩
  generalize stateAfter (beginWatch table handle scope target index ⟨buffer, world⟩) = left
    at opens found
  cases opens with
  | refused | plain => exact ⟨_, found, rfl, rfl⟩
  | failed | pending => exact confirmed found

/-- Settling a watch stamps a change only if it makes it. -/
theorem retains_settle (watch : OpenWatch) : Retains instant buffer
    (stateAfter (settle table instant.now instant.currentTick watch ⟨buffer, world⟩)).buffer := by
  have settles : Settles table watch buffer world
      (stateAfter (settle table instant.now instant.currentTick watch ⟨buffer, world⟩)) :=
    settles_settle
  generalize same : stateAfter (settle table instant.now instant.currentTick watch ⟨buffer, world⟩) =
    left at settles
  cases settles with
  | passed => exact .refl instant buffer
  | changed =>
    dsimp only
    split
    next => exact .update (fun _ => by exact ⟨rfl, rfl⟩) instant buffer watch.key
    next => exact .refl instant buffer
  | @edited id field before after left next seen known fresh opened shown differs =>
    -- Which change has been made, if any, hangs on whether the host puts the field back.
    cases written : field.set watch.key.scope watch.target watch.key.index before world with
    | ok _ after =>
      rw [settle_edited seen known fresh opened shown differs written] at same
      cases same
      exact .add fresh ⟨rfl, rfl⟩
    | error fault after =>
      obtain ⟨error, failed⟩ : ∃ error, settle table instant.now instant.currentTick watch
          ⟨buffer, world⟩ = .error error ⟨buffer, after⟩ :=
        settle_edited_failed seen known fresh opened shown differs written
      rw [failed] at same
      cases same
      exact .refl instant buffer

theorem retains_endWatch (serial : Nat) : Retains instant buffer
    (stateAfter (endWatch table serial instant.now instant.currentTick ⟨buffer, world⟩)).buffer := by
  refine endWatch_keeps (fun watched => Retains instant buffer watched.buffer)
    (fun {now world watch rest} retains stack => ?_) (.refl instant buffer) serial
  have popped : Retains instant now { now with watches := rest } := .congr (.refl instant now) rfl
  exact (retains.trans popped).trans (retains_settle watch)

/-! ## Flushing -/

/-- Whether a change is due hangs on when it was stamped. -/
theorem isDue_iff {scope : ScopeId} {stamped : Instant} (same : change.StampedAt scope stamped) :
    isDue interval instant.now (instant.currentTick scope) change = true ↔
      interval.HasPassed scope stamped instant := by
  obtain ⟨sameStamp, sameTick⟩ := same
  cases interval with
  | millis count => rw [isDue, sameStamp, decide_eq_true_iff, FlushInterval.HasPassed]
  | ticks count =>
    simp only [isDue, Instant.currentTick, sameTick, decide_eq_true_iff, FlushInterval.HasPassed]

/-- What the world shows has no part in whether a change is due. -/
theorem isDue_actual (interval : FlushInterval) (now : Nat) (tick : Option Tick)
    (change : BufferedChange) (live : Value) :
    isDue interval now tick { change with actual := live } = isDue interval now tick change := by
  cases interval with
  | millis count => rfl
  | ticks count => rfl

/-- A change that is not sent and that the world does not show is offered once it is due. -/
theorem flushChange_waiting (interval : FlushInterval) (instant : Instant) (send : Pacing.Sender)
    {id : HandlerId} {field : FieldHandler W} {live : Value}
    (known : table.field change.handle = .ok (id, field))
    (shown : field.get world change.scope change.target change.index = some live)
    (differs : live.equal change.pending = false) (unsent : change.sent = false) :
    flushChange table world instant.now instant.currentTick interval false send change =
      if isDue (field.flushInterval.getD interval) instant.now (instant.currentTick change.scope)
          change = true then
        match send { change with actual := live } with
        | .ok message => (some { change with
            actual := live, sent := true, stamp := instant.now,
            stampTick := instant.tick change.scope }, some (.ok message))
        | .error error => (some { change with actual := live }, some (.error error))
      else (some { change with actual := live }, none) := by
  rw [flushChange, known, ← isDue_actual _ instant.now _ change live]
  cases answer : send { change with actual := live } with
  | ok _ | error _ =>
    rw [unsent] at answer
    simp only [shown, differs, unsent, answer, Bool.false_or, Bool.false_eq_true, if_false,
      Instant.currentTick, Option.getD_some]

/-- What a flush sends is due, and stamped. -/
theorem due_of_sent {message : Bool} (sent : (flushChange table world instant.now instant.currentTick
      interval false send change).2 = some (.ok message)) :
    ∃ id field live, table.field change.handle = .ok (id, field) ∧
      isDue (field.flushInterval.getD interval) instant.now (instant.currentTick change.scope) change =
        true ∧
      (flushChange table world instant.now instant.currentTick interval false send change).1 =
        some { change with
          actual := live, sent := true, stamp := instant.now,
          stampTick := instant.tick change.scope } := by
  cases known : table.field change.handle with
  | error error =>
    rw [flushChange, known] at sent
    cases sent
  | ok found =>
    obtain ⟨id, field⟩ := found
    cases shown : field.get world change.scope change.target change.index with
    | none =>
      rw [flushChange, known] at sent
      simp [shown] at sent
    | some live =>
      cases same : live.equal change.pending with
      | true =>
        rw [flushChange_shown known shown same] at sent
        cases sent
      | false =>
        cases before : change.sent with
        | true =>
          rw [flushChange, known] at sent
          simp [shown, same, before] at sent
        | false =>
          rw [flushChange_waiting interval instant send known shown same before] at sent ⊢
          split at sent
          next due =>
            refine ⟨id, field, live, rfl, due, ?_⟩
            rw [if_pos due]
            split at sent
            next => rfl
            next => cases sent
          next => cases sent

/-- A flush stamps what it sends, and nothing else. -/
theorem stamped_flushChange {left : BufferedChange} (kept : (flushChange table world instant.now
      instant.currentTick interval false send change).1 = some left) :
    (∃ message, (flushChange table world instant.now instant.currentTick interval false send
        change).2 = some (.ok message)) ∧ left.StampedAt change.scope instant ∨
      (¬∃ message, (flushChange table world instant.now instant.currentTick interval false send
        change).2 = some (.ok message)) ∧ left.StampedAs change := by
  by_cases sent : ∃ message, (flushChange table world instant.now instant.currentTick interval false
    send change).2 = some (.ok message)
  · obtain ⟨_, _, _, -, -, stamped⟩ := due_of_sent sent.choose_spec
    cases stamped.symm.trans kept
    exact .inl ⟨sent, rfl, rfl⟩
  · have flushes : Flushes send change
      (flushChange table world instant.now instant.currentTick interval false send change) :=
      flushes_flushChange
    refine .inr ⟨sent, ?_⟩
    generalize flushChange table world instant.now instant.currentTick interval false send change =
      result at flushes kept sent
    cases flushes with
    | dropped => cases kept
    | kept | failed =>
      cases kept
      exact ⟨rfl, rfl⟩
    | sent => exact absurd ⟨_, rfl⟩ sent

end ChangeBuffer

theorem HandlerTable.intervalOf_eq {table : HandlerTable W} {key : BufferKey}
    {change : BufferedChange} {id : HandlerId} {field : FieldHandler W}
    (holds : key.Holds table change) (known : table.field change.handle = .ok (id, field))
    (default : FlushInterval) : table.intervalOf default key = field.flushInterval.getD default := by
  rw [intervalOf, holds.1.handles known]

namespace Pacing

variable {table : HandlerTable W} {interval : FlushInterval} {watched : Watched W} {instant : Instant}
  {send : Sender} {key : BufferKey} {change : BufferedChange}

/-! ## The log -/

/-- What a flush answers is how its attempts to send end. -/
theorem outcomes_flushAt : (flushAt table interval watched instant send).1 =
    (attempts table interval watched instant send).map (·.2) := by
  rw [flushAt, ChangeBuffer.outcomes_flush, ChangeBuffer.changes, List.filterMap_map, attempts,
    List.map_filterMap]
  refine List.filterMap_congr fun entry _ => ?_
  rw [Option.map_map]
  exact Option.map_id'.symm

theorem lookup_attempts (tidy : watched.buffer.Tidy table) :
    (attempts table interval watched instant send).lookup key =
      (watched.buffer.change? key).bind fun change => (ChangeBuffer.flushChange table watched.world
        instant.now instant.currentTick interval false send change).2 :=
  lookup_filterMap (fun _ change => (ChangeBuffer.flushChange table watched.world
    instant.now instant.currentTick interval false send change).2) tidy.distinct key

theorem nodup_attempts (tidy : watched.buffer.Tidy table) :
    ((attempts table interval watched instant send).map (·.1)).Nodup :=
  tidy.distinct.sublist (keys_filterMap (fun _ change => (ChangeBuffer.flushChange table watched.world
    instant.now instant.currentTick interval false send change).2) watched.buffer.entries)

theorem mem_attempts (tidy : watched.buffer.Tidy table)
    (found : watched.buffer.change? key = some change) (outcome : Except CaptureError Bool) :
    (key, outcome) ∈ attempts table interval watched instant send ↔ (ChangeBuffer.flushChange table
      watched.world instant.now instant.currentTick interval false send change).2 = some outcome := by
  rw [← lookup_eq_some_iff (nodup_attempts tidy), lookup_attempts tidy, found, Option.bind_some]

/-- A flush tries to send changes that there are. -/
theorem change?_of_attempt {outcome : Except CaptureError Bool} (tidy : watched.buffer.Tidy table)
    (tried : (key, outcome) ∈ attempts table interval watched instant send) :
    ∃ change, watched.buffer.change? key = some change := by
  have found := (lookup_eq_some_iff (nodup_attempts tidy)).mpr tried
  rw [lookup_attempts tidy] at found
  exact (Option.bind_eq_some_iff.mp found).imp fun _ found => found.1

theorem mem_sentKeys (interval : FlushInterval) (instant : Instant) (send : Sender)
    (tidy : watched.buffer.Tidy table) (found : watched.buffer.change? key = some change) :
    key ∈ sentKeys table interval watched instant send ↔ ∃ message, (ChangeBuffer.flushChange table
      watched.world instant.now instant.currentTick interval false send change).2 =
        some (.ok message) := by
  rw [sentKeys, List.mem_map]
  constructor
  · rintro ⟨⟨_, outcome⟩, member, rfl⟩
    obtain ⟨member, taken⟩ := List.mem_filter.mp member
    cases outcome with
    | error error => cases taken
    | ok message => exact ⟨message, (mem_attempts tidy found _).mp member⟩
  · rintro ⟨message, offered⟩
    exact ⟨(key, .ok message),
      List.mem_filter.mpr ⟨(mem_attempts tidy found _).mpr offered, rfl⟩, rfl⟩

theorem change?_of_sent (tidy : watched.buffer.Tidy table)
    (sent : key ∈ sentKeys table interval watched instant send) :
    ∃ change, watched.buffer.change? key = some change := by
  obtain ⟨⟨_, outcome⟩, member, rfl⟩ := List.mem_map.mp sent
  exact change?_of_attempt tidy (List.mem_filter.mp member).1

theorem nodup_sentKeys (tidy : watched.buffer.Tidy table) :
    (sentKeys table interval watched instant send).Nodup :=
  (nodup_attempts tidy).sublist (List.filter_sublist.map _)

/-- A field that has a change has had it made if it had none before. -/
theorem mem_madeKeys (before : ChangeBuffer) {after : ChangeBuffer}
    (found : after.change? key = some change) :
    key ∈ madeKeys before after ↔ before.change? key = none := by
  have listed : key ∈ after.entries.map (·.1) := by
    refine Classical.byContradiction fun fresh => ?_
    cases found.symm.trans (lookup_eq_none_iff.mpr fresh)
  rw [madeKeys, List.mem_filter, and_iff_right listed, Option.isNone_iff_eq_none]

/-- The last that was done to the change of a field is among the newest marks, if the field is. -/
theorem find?_marks {keys : List BufferKey} {isSend : Bool} {log : List Mark} :
    (marks keys instant isSend ++ log).find? (·.key = key) =
      if key ∈ keys then some { key, instant, isSend } else log.find? (·.key = key) := by
  induction keys with
  | nil => rfl
  | cons other keys ih =>
    have cons : marks (other :: keys) instant isSend ++ log =
      { key := other, instant, isSend } :: (marks keys instant isSend ++ log) := rfl
    rw [cons, List.find?_cons]
    by_cases here : other = key
    · rw [decide_eq_true here, if_pos (here ▸ List.mem_cons_self), here]
    · rw [decide_eq_false here, ih]
      simp only [List.mem_cons, Ne.symm here, false_or]

/-! ## What a run keeps -/

/-- The changes are stamped with what was last done to them, and the log is in order, by what is still
ahead, and in pace. -/
structure Keeps (table : HandlerTable W) (interval : FlushInterval) (ahead : List Instant)
    (pacing : Pacing W) : Prop where
  tidy : pacing.watched.buffer.Tidy table
  stamped {key : BufferKey} {change : BufferedChange} :
    pacing.watched.buffer.change? key = some change →
      ∃ mark, pacing.last? key = some mark ∧ change.StampedAt key.scope mark.instant
  ordered : pacing.log.Pairwise fun later earlier => earlier.instant.Before later.instant
  before : ∀ mark ∈ pacing.log, ∀ instant ∈ ahead, mark.instant.Before instant
  apart : pacing.log.Pairwise fun later earlier => later.isSend = true → later.key = earlier.key →
    (table.intervalOf interval later.key).HasPassed later.key.scope earlier.instant later.instant

namespace Keeps

variable {pacing : Pacing W} {ahead : List Instant} {after : Watched W}

/-- A step that makes no change and sends none. -/
theorem unmarked (keeps : Keeps table interval ahead pacing) (tidy : after.buffer.Tidy table)
    (stamps : ∀ {key change}, after.buffer.change? key = some change →
      ∃ old, pacing.watched.buffer.change? key = some old ∧ change.StampedAs old) :
    Keeps table interval ahead { pacing with watched := after } where
  tidy := tidy
  stamped found := by
    obtain ⟨old, before, same⟩ := stamps found
    obtain ⟨mark, last, stamped⟩ := keeps.stamped before
    exact ⟨mark, last, same.at stamped⟩
  ordered := keeps.ordered
  before := keeps.before
  apart := keeps.apart

/-- A step that makes or sends changes, and stamps them. -/
theorem marked {keys : List BufferKey} {isSend : Bool}
    (keeps : Keeps table interval (instant :: ahead) pacing) (tidy : after.buffer.Tidy table)
    (forward : ∀ later ∈ ahead, instant.Before later)
    (stamps : ∀ {key change}, after.buffer.change? key = some change →
      key ∈ keys ∧ change.StampedAt key.scope instant ∨ key ∉ keys ∧
        ∃ old, pacing.watched.buffer.change? key = some old ∧ change.StampedAs old)
    (distinct : keys.Nodup)
    (passed : isSend = true → ∀ key ∈ keys, ∀ mark ∈ pacing.log, key = mark.key →
      (table.intervalOf interval key).HasPassed key.scope mark.instant instant) :
    Keeps table interval ahead ⟨after, marks keys instant isSend ++ pacing.log⟩ where
  tidy := tidy
  stamped {key change} found := by
    rw [last?, find?_marks]
    rcases stamps found with ⟨new, stamped⟩ | ⟨old, change', before, same⟩
    · exact ⟨_, if_pos new, stamped⟩
    · obtain ⟨mark, last, stamped⟩ := keeps.stamped before
      exact ⟨mark, (if_neg old).trans last, same.at stamped⟩
  ordered := by
    refine List.pairwise_append.mpr ⟨?_, keeps.ordered, ?_⟩
    · exact List.pairwise_map.mpr (distinct.imp fun _ => .refl instant)
    · rintro _ new mark old
      obtain ⟨_, -, rfl⟩ := List.mem_map.mp new
      exact keeps.before mark old instant List.mem_cons_self
  before mark member later coming := by
    rcases List.mem_append.mp member with new | old
    · obtain ⟨_, -, rfl⟩ := List.mem_map.mp new
      exact forward later coming
    · exact keeps.before mark old later (List.mem_cons_of_mem _ coming)
  apart := by
    refine List.pairwise_append.mpr ⟨?_, keeps.apart, ?_⟩
    · exact List.pairwise_map.mpr (distinct.imp fun ne _ same => absurd same ne)
    · rintro _ new mark old sent same
      obtain ⟨key, member, rfl⟩ := List.mem_map.mp new
      exact passed sent key member mark old same

/-- What was done to the change of a field was done no later than what was last done. -/
theorem before_last (keeps : Keeps table interval ahead pacing) {mark old : Mark}
    (last : pacing.last? key = some mark) (member : old ∈ pacing.log) (same : key = old.key) :
    old.instant.Before mark.instant := by
  obtain ⟨-, newer, older, split, others⟩ := List.find?_eq_some_iff_append.mp last
  have ordered := keeps.ordered
  rw [split] at member ordered
  rcases List.mem_append.mp member with new | rest
  · exact absurd (decide_eq_true same.symm) (by simpa using others old new)
  · rcases List.mem_cons.mp rest with rfl | rest
    · exact .refl _
    · exact List.rel_of_pairwise_cons (List.pairwise_append.mp ordered).2.1 rest

theorem endWatch (keeps : Keeps table interval (instant :: ahead) pacing)
    (forward : ∀ later ∈ ahead, instant.Before later) (serial : Nat) :
    Keeps table interval ahead (Pacing.step table interval pacing (.endWatch serial instant)) := by
  rw [step_endWatch table interval pacing serial instant rfl]
  refine keeps.marked (keeps.tidy.endWatch serial _ _ _) forward (fun {key change} found => ?_)
    (List.Nodup.filter _ (keeps.tidy.endWatch serial _ _ _).distinct) (fun sent => by cases sent)
  have made := mem_madeKeys pacing.watched.buffer found
  rcases (ChangeBuffer.retains_endWatch serial).stamps found with
    ⟨old, before, same⟩ | ⟨fresh, stamped⟩
  · have kept := mt made.mp (Option.ne_none_iff_exists'.mpr ⟨old, before⟩)
    exact .inr ⟨kept, old, before, same⟩
  · exact .inl ⟨made.mpr fresh, stamped⟩

theorem flush (keeps : Keeps table interval (instant :: ahead) pacing)
    (forward : ∀ later ∈ ahead, instant.Before later) (send : Sender) :
    Keeps table interval ahead (Pacing.step table interval pacing (.flush instant send)) := by
  rw [step_flush]
  refine keeps.marked keeps.tidy.flush forward (fun {key left} found => ?_)
    (nodup_sentKeys keeps.tidy) (fun _ key sent old member same => ?_)
  · rw [flushAt, ChangeBuffer.change?_flush keeps.tidy.distinct] at found
    obtain ⟨change, before, kept⟩ := Option.bind_eq_some_iff.mp found
    have sent := mem_sentKeys interval instant send keeps.tidy before
    rcases ChangeBuffer.stamped_flushChange kept with ⟨taken, stamped⟩ | ⟨waits, same⟩
    · rw [(keeps.tidy.changes before).2.1] at stamped
      exact .inl ⟨sent.mpr taken, stamped⟩
    · exact .inr ⟨mt sent.mp waits, change, before, same⟩
  · obtain ⟨change, found⟩ := change?_of_sent keeps.tidy sent
    obtain ⟨message, taken⟩ := (mem_sentKeys interval instant send keeps.tidy found).mp sent
    obtain ⟨mark, last, stamped⟩ := keeps.stamped found
    obtain ⟨_, field, _, known, due, -⟩ := ChangeBuffer.due_of_sent taken
    have holds := keeps.tidy.changes found
    rw [holds.2.1, ← HandlerTable.intervalOf_eq holds known] at due
    exact ((ChangeBuffer.isDue_iff stamped).mp due).mono (keeps.before_last last member same)

theorem step {call : Call W} (keeps : Keeps table interval (call.instant?.toList ++ ahead) pacing)
    (forward : ∀ instant ∈ call.instant?, ∀ later ∈ ahead, instant.Before later) :
    Keeps table interval ahead (Pacing.step table interval pacing call) := by
  cases call with
  | beginWatch handle scope target index =>
    rw [step_beginWatch]
    exact keeps.unmarked (keeps.tidy.beginWatch handle scope target index _)
      ChangeBuffer.stampedAs_beginWatch
  | edit change => exact keeps.unmarked keeps.tidy fun found => ⟨_, found, rfl, rfl⟩
  | endWatch serial instant => exact keeps.endWatch (forward instant rfl) serial
  | flush instant send => exact keeps.flush (forward instant rfl) send
  | removeScope scope =>
    refine keeps.unmarked (keeps.tidy.removeScope scope) fun {key change} found => ?_
    have found : (pacing.watched.buffer.removeScope scope).change? key = some change := found
    rw [ChangeBuffer.change?_removeScope] at found
    split at found
    next => cases found
    next => exact ⟨_, found, rfl, rfl⟩

theorem play {calls : List (Call W)}
    (keeps : Keeps table interval (calls.filterMap Call.instant?) pacing)
    (ordered : (calls.filterMap Call.instant?).Pairwise Instant.Before) :
    Keeps table interval [] (Pacing.play table interval pacing calls) := by
  induction calls generalizing pacing with
  | nil => exact keeps
  | cons call calls ih =>
    have split : (call :: calls).filterMap Call.instant? =
        call.instant?.toList ++ calls.filterMap Call.instant? := by
      cases timed : call.instant? with
      | none => rw [List.filterMap_cons_none timed]; rfl
      | some instant => rw [List.filterMap_cons_some timed]; rfl
    rw [split] at keeps ordered
    obtain ⟨-, ordered, forward⟩ := List.pairwise_append.mp ordered
    exact ih (keeps.step fun instant timed => forward instant (Option.mem_toList.mpr timed)) ordered

theorem start (table : HandlerTable W) (interval : FlushInterval) (ahead : List Instant) (world : W) :
    Keeps table interval ahead ⟨⟨{}, world⟩, []⟩ where
  tidy := .of_empty rfl rfl table
  stamped found := by cases found
  ordered := .nil
  before _ none := by cases none
  apart := .nil

end Keeps

/-! ## The pace -/

/-- A field has a change, and a mark was its last. -/
structure Stands (pacing : Pacing W) (key : BufferKey) (change : BufferedChange) (mark : Mark) :
    Prop where
  change : pacing.watched.buffer.change? key = some change
  last : pacing.last? key = some mark

/-- What a flush makes of a change that is not sent and that the world does not show: once the interval
of the field has passed it is sent, unless it is refused, and then it stays what it was; before that
nothing is tried. -/
structure Serves (table : HandlerTable W) (interval : FlushInterval) (pacing : Pacing W)
    (key : BufferKey) (change : BufferedChange) (mark : Mark) (instant : Instant) (send : Sender) :
    Prop where
  taken {message : Bool} :
    (table.intervalOf interval key).HasPassed key.scope mark.instant instant →
    send change = .ok message →
    (key, .ok message) ∈ attempts table interval pacing.watched instant send ∧
      (step table interval pacing (.flush instant send)).Stands key
        { change with sent := true, stamp := instant.now, stampTick := instant.tick key.scope }
        { key, instant, isSend := true }
  refused {error : CaptureError} :
    (table.intervalOf interval key).HasPassed key.scope mark.instant instant →
    send change = .error error →
    (key, .error error) ∈ attempts table interval pacing.watched instant send ∧
      (step table interval pacing (.flush instant send)).Stands key change mark
  early : ¬(table.intervalOf interval key).HasPassed key.scope mark.instant instant →
    (∀ outcome, (key, outcome) ∉ attempts table interval pacing.watched instant send) ∧
      (step table interval pacing (.flush instant send)).Stands key change mark

/-- Sends of a field are an interval apart, from each other and from the making of what is sent; what
waits is served by every flush. -/
structure InPace (table : HandlerTable W) (interval : FlushInterval) (pacing : Pacing W) : Prop where
  apart : pacing.log.Pairwise fun later earlier => later.isSend = true → later.key = earlier.key →
    (table.intervalOf interval later.key).HasPassed later.key.scope earlier.instant later.instant
  known {key : BufferKey} {change : BufferedChange} :
    pacing.watched.buffer.change? key = some change → ∃ mark, pacing.Stands key change mark
  serves {key : BufferKey} {change : BufferedChange} {mark : Mark} {live : Value} :
    pacing.Stands key change mark → change.sent = false →
    table.read? pacing.watched.world (key.place change.target) = some live →
    live.equal change.pending = false → ∀ instant send,
      Serves table interval pacing key { change with actual := live } mark instant send
  outcomes (instant : Instant) (send : Sender) : (flushAt table interval pacing.watched instant send).1 =
    (attempts table interval pacing.watched instant send).map (·.2)

/-- What a flush answers for a change of a field, and what it leaves of it. -/
theorem Stands.flush {pacing : Pacing W} {mark : Mark} {left : BufferedChange}
    {outcome : Option (Except CaptureError Bool)} (stands : pacing.Stands key change mark)
    (tidy : pacing.watched.buffer.Tidy table)
    (flushed : ChangeBuffer.flushChange table pacing.watched.world instant.now instant.currentTick
      interval false send change = (some left, outcome)) :
    (∀ answer, (key, answer) ∈ attempts table interval pacing.watched instant send ↔
      outcome = some answer) ∧
    (step table interval pacing (.flush instant send)).Stands key left
      (match outcome with
        | some (.ok _) => { key, instant, isSend := true }
        | some (.error _) | none => mark) := by
  have sent := mem_sentKeys interval instant send tidy stands.change
  rw [flushed] at sent
  refine ⟨fun answer => ?_, ?_, ?_⟩
  · rw [mem_attempts tidy stands.change, flushed]
  · rw [step_flush, flushAt, ChangeBuffer.change?_flush tidy.distinct, stands.change, Option.bind_some,
      flushed]
  · rw [step_flush, last?, find?_marks]
    rcases outcome with _ | error | message
    · exact (if_neg (mt sent.mp (by rintro ⟨_, ⟨⟩⟩))).trans stands.last
    · exact (if_neg (mt sent.mp (by rintro ⟨_, ⟨⟩⟩))).trans stands.last
    · exact if_pos (sent.mpr ⟨message, rfl⟩)

theorem Keeps.serves {pacing : Pacing W} {ahead : List Instant} {mark : Mark} {live : Value}
    (keeps : Keeps table interval ahead pacing) (stands : pacing.Stands key change mark)
    (unsent : change.sent = false)
    (shown : table.read? pacing.watched.world (key.place change.target) = some live)
    (differs : live.equal change.pending = false) (instant : Instant) (send : Sender) :
    Serves table interval pacing key { change with actual := live } mark instant send := by
  have holds := keeps.tidy.changes stands.change
  obtain ⟨field, known, read⟩ :=
    HandlerTable.placeOf?_eq_some (HandlerTable.placeOf?_of_holds holds) pacing.watched.world
  have due : ChangeBuffer.isDue (field.flushInterval.getD interval) instant.now
      (instant.currentTick change.scope) change = true ↔
        (table.intervalOf interval key).HasPassed key.scope mark.instant instant := by
    obtain ⟨_, last, stamped⟩ := keeps.stamped stands.change
    cases stands.last.symm.trans last
    rw [← HandlerTable.intervalOf_eq holds known, holds.2.1]
    exact ChangeBuffer.isDue_iff stamped
  have waits := ChangeBuffer.flushChange_waiting interval instant send known (read.symm.trans shown)
    differs unsent
  refine ⟨fun {message} passed answer => ?_, fun {error} passed answer => ?_, fun early => ?_⟩
  · rw [if_pos (due.mpr passed), answer] at waits
    obtain ⟨tried, stands⟩ := stands.flush keeps.tidy waits
    rw [← holds.2.1]
    exact ⟨(tried _).mpr rfl, stands⟩
  · rw [if_pos (due.mpr passed), answer] at waits
    obtain ⟨tried, stands⟩ := stands.flush keeps.tidy waits
    exact ⟨(tried _).mpr rfl, stands⟩
  · rw [if_neg (mt due.mp early)] at waits
    obtain ⟨tried, stands⟩ := stands.flush keeps.tidy waits
    exact ⟨fun outcome => mt (tried outcome).mp (by rintro ⟨⟩), stands⟩

/-- A run of watches, edits and flushes that are not forced keeps the pace. -/
theorem keeps_pace (table : HandlerTable W) (interval : FlushInterval) (world : W)
    (calls : List (Call W)) (ordered : (calls.filterMap Call.instant?).Pairwise Instant.Before) :
    (play table interval ⟨⟨{}, world⟩, []⟩ calls).InPace table interval :=
  have keeps := (Keeps.start table interval _ world).play ordered
  { apart := keeps.apart
    known := fun found => (keeps.stamped found).imp fun _ last => ⟨found, last.1⟩
    serves := keeps.serves
    outcomes := fun _ _ => outcomes_flushAt }

/-- An instant at which no tick has passed. -/
def instantAt (now : Nat) : Instant := ⟨now, fun _ => 0⟩

/-- A level is edited to a five and then to a six, with flushes before and after it is due. -/
def pacedCalls : List (Call Lab) := [
  .beginWatch 0 .global (.scalar (.i32 1)) none, .edit levelEdit, .endWatch 0 (instantAt 10),
  .flush (instantAt 40) fun _ => .ok true, .flush (instantAt 70) fun _ => .ok true,
  .beginWatch 0 .global (.scalar (.i32 1)) none,
  .edit (Lab.setCell (Lab.cellOf UInt32.toNat levelPlace (.scalar (.i32 6)))),
  .endWatch 1 (instantAt 80), .flush (instantAt 90) fun _ => .ok true]

/-- Fifty milliseconds after the level was sent its second edit is due, and not before. -/
theorem level_keeps_pace :
    let paced := play levelTable (.millis 50) ⟨⟨{}, {}⟩, []⟩ pacedCalls
    (pacedCalls.filterMap Call.instant?).Pairwise Instant.Before ∧
      paced.InPace levelTable (.millis 50) ∧
      paced.log.map (fun mark => (mark.instant.now, mark.isSend)) = [(70, true), (10, false)] ∧
      ([119, 120].map fun now => (attempts levelTable (.millis 50) paced.watched (instantAt now)
        fun _ => .ok true).map (·.2.isOk)) = [[], [true]] := by
  have ordered : (pacedCalls.filterMap Call.instant?).Pairwise Instant.Before := by
    have instants : pacedCalls.filterMap Call.instant? = [10, 40, 70, 80, 90].map instantAt := rfl
    have ascending : [10, 40, 70, 80, 90].Pairwise (· ≤ ·) := by decide
    rw [instants, List.pairwise_map]
    exact ascending.imp fun before => ⟨before, fun _ => Nat.le_refl _⟩
  exact ⟨ordered, keeps_pace levelTable (.millis 50) {} pacedCalls ordered, by decide +kernel,
    by decide +kernel⟩

end Pacing

end Lockstep
