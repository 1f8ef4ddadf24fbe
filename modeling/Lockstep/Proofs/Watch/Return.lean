import Lockstep.Proofs.Watch.Awaiting
import Lockstep.Proofs.World.Lab

/-! # Changes that come back

A peer that has sent a buffered change waits for it, whatever it does besides (`Peer.Goes.awaits`). So a
change settles by its value, and not by its command: it is dropped exactly if the field has come to show
it (`Peer.settles_when_shown`). A change that the host refuses stays, and so does one that another
command has overtaken.
-/

namespace Lockstep

variable {W : Type}

/-! ## While a peer goes on -/

namespace Peer

/-- How a peer comes from one state to another: watches are opened and closed, changes are flushed,
scopes are taken away, and whatever happens besides leaves settings, handlers and buffer alone. Scopes
that go and what happens besides change the world as it may. -/
inductive Goes [World W] (may : Peer W → W → Prop) (peer : Peer W) : Peer W → Prop
  | rest : Goes may peer peer
  | beginWatch {now : Peer W} (handle : Handle) (scope : ScopeId) (target : Value)
      (index : Option Int32) : Goes may peer now →
      Goes may peer (now.beginWatch handle scope target index).2
  | endWatch {now : Peer W} (serial time : Nat) : Goes may peer now →
      Goes may peer (now.endWatch serial time).2
  | flush {now : Peer W} (time : Nat) (force : Bool) : Goes may peer now →
      Goes may peer (now.flush time force).2
  | removeScope {now after : Peer W} {scope : ScopeId} : Goes may peer now →
      now.removeScope scope = .ok after → may now after.world → Goes may peer after
  | happens {now after : Peer W} : Goes may peer now →
      after.stage = { now.stage with world := after.world } → may now after.world →
      Goes may peer after

/-- A field shows nothing that it may not, and is left alone while a watch on it is open. -/
def Spares (place : Place) (shown : Option Value → Prop) (peer : Peer W) (world : W) : Prop :=
  shown (peer.table.read? world place) ∧
    (place ∈ peer.buffer.openPlaces →
      peer.table.read? world place = peer.table.read? peer.world place)

/-- An action of watches leaves a peer with what it leaves. -/
theorem watched_watching {α : Type} (peer : Peer W) (action : Watching W α) :
    (⟨(peer.watching action).2.buffer, (peer.watching action).2.world⟩ : Watched W) =
      Lockstep.stateAfter (action ⟨peer.buffer, peer.world⟩) :=
  Watching.snd_run action ⟨peer.buffer, peer.world⟩

/-- How a peer sends a change. -/
def sendChange (peer : Peer W) (change : BufferedChange) : Except CaptureError Outbound :=
  PendingCommand.message <$> peer.table.captureField peer.config.debugMode change.handle change.scope
    peer.ambient change.target change.index change.pending

theorem buffer_flush (peer : Peer W) (now : Nat) (force : Bool) :
    (peer.flush now force).2.buffer = (peer.buffer.flush peer.table peer.world now peer.nextTick?
      peer.config.flushInterval force peer.sendChange).2 := rfl

theorem world_flush (peer : Peer W) (now : Nat) (force : Bool) :
    (peer.flush now force).2.world = peer.world := by
  obtain ⟨send, flushed⟩ := peer.stage_flush now force
  exact congrArg Stage.world flushed

theorem table_flush (peer : Peer W) (now : Nat) (force : Bool) :
    (peer.flush now force).2.table = peer.table := by
  obtain ⟨send, flushed⟩ := peer.stage_flush now force
  exact congrArg Stage.table flushed

theorem outbox_foldl_send (messages : List Outbound) (peer : Peer W) :
    (messages.foldl send peer).outbox = messages.reverse ++ peer.outbox := by
  induction messages generalizing peer with
  | nil => rfl
  | cons message messages ih => simp [ih, send]

/-- What a flush sends is in the outbox. -/
theorem mem_outbox_flush {peer : Peer W} {now : Nat} {force : Bool} {key : BufferKey}
    {change : BufferedChange} {message : Outbound} (found : peer.buffer.change? key = some change)
    (outcome : (ChangeBuffer.flushChange peer.table peer.world now peer.nextTick?
      peer.config.flushInterval force peer.sendChange change).2 = some (.ok message)) :
    message ∈ (peer.flush now force).2.outbox := by
  obtain ⟨front, back, split, -⟩ := List.lookup_eq_some_iff.mp found
  have listed : (key, change) ∈ peer.buffer.entries := by
    rw [split]
    exact List.mem_append_right _ List.mem_cons_self
  have sent : Except.ok message ∈ (peer.buffer.flush peer.table peer.world now peer.nextTick?
      peer.config.flushInterval force peer.sendChange).1 :=
    List.mem_filterMap.mpr ⟨_, List.mem_map_of_mem listed, outcome⟩
  have outbox : (peer.flush now force).2.outbox = (((peer.buffer.flush peer.table peer.world now
      peer.nextTick? peer.config.flushInterval force peer.sendChange).1.filterMap
        Except.toOption).foldl send peer).outbox := rfl
  rw [outbox, outbox_foldl_send]
  exact List.mem_append_left _ (List.mem_reverse.mpr (List.mem_filterMap.mpr ⟨_, sent, rfl⟩))

/-- A buffered change counts as sent since a flush, and did not before. -/
structure Sends (peer : Peer W) (now : Nat) (force : Bool) (key : BufferKey) (change : BufferedChange) :
    Prop where
  found : peer.buffer.change? key = some change
  unsent : change.sent = false
  sent : ((peer.flush now force).2.buffer.change? key).map (·.sent) = some true

/-- What a flush has sent is in the outbox as a captured command. -/
theorem Sends.captured {peer : Peer W} {now : Nat} {force : Bool} {key : BufferKey}
    {change : BufferedChange} (sends : peer.Sends now force key change)
    (tidy : peer.buffer.Tidy peer.table) :
    ∃ pending, peer.table.captureField peer.config.debugMode change.handle change.scope peer.ambient
        change.target change.index change.pending = .ok pending ∧
      pending.message ∈ (peer.flush now force).2.outbox := by
  obtain ⟨left, flushed, sent⟩ := Option.map_eq_some_iff.mp sends.sent
  rw [buffer_flush, ChangeBuffer.change?_flush tidy.distinct, sends.found, Option.bind_some] at flushed
  obtain ⟨message, outcome, live, captured⟩ := ChangeBuffer.flushChange_sent flushed sends.unsent sent
  have arrived := mem_outbox_flush sends.found outcome
  rw [sendChange] at captured
  dsimp only at captured
  cases pending : peer.table.captureField peer.config.debugMode change.handle change.scope
      peer.ambient change.target change.index change.pending with
  | error error =>
    rw [pending] at captured
    cases captured
  | ok pending' =>
    rw [pending] at captured
    cases captured
    exact ⟨pending', rfl, arrived⟩

/-! ## Watches of a peer that goes on -/

theorem Goes.tidy [World W] {may : Peer W → W → Prop} {peer last : Peer W} (goes : peer.Goes may last)
    (tidy : peer.buffer.Tidy peer.table) :
    last.table = peer.table ∧ last.buffer.Tidy peer.table := by
  induction goes with
  | rest => exact ⟨rfl, tidy⟩
  | @beginWatch now handle scope target index _ ih =>
    have watched := ih.2.beginWatch handle scope target index now.world
    refine ⟨ih.1, ?_⟩
    rw [← ih.1] at watched ⊢
    rw [← watched_watching] at watched
    exact watched
  | @endWatch now serial time _ ih =>
    have watched := ih.2.endWatch serial time now.nextTick? now.world
    refine ⟨ih.1, ?_⟩
    rw [← ih.1] at watched ⊢
    rw [← watched_watching] at watched
    exact watched
  | @flush now time force _ ih =>
    refine ⟨(table_flush now time force).trans ih.1, ?_⟩
    rw [buffer_flush, ih.1]
    exact ih.2.flush
  | @removeScope now after scope _ removed _ ih =>
    have same := stage_removeScope removed
    have table : after.table = now.table := congrArg Stage.table same
    have buffer : after.buffer = now.buffer.removeScope scope := congrArg Stage.buffer same
    exact ⟨table.trans ih.1, buffer ▸ ih.2.removeScope scope⟩
  | @happens now after _ same _ ih =>
    have table : after.table = now.table := congrArg Stage.table same
    have buffer : after.buffer = now.buffer := congrArg Stage.buffer same
    exact ⟨table.trans ih.1, buffer ▸ ih.2⟩

variable {table : HandlerTable W} {key : BufferKey} {target : Value} {awaited : Option Value}
  {shown : Option Value → Prop} {peer last : Peer W}

/-- A peer that waits for a change, and knows of no other handlers. -/
structure Awaits (table : HandlerTable W) (key : BufferKey) (target : Value) (awaited : Option Value)
    (shown : Option Value → Prop) (peer : Peer W) : Prop where
  knows : peer.table = table
  awaits : Lockstep.Awaits table key target awaited shown ⟨peer.buffer, peer.world⟩

theorem Goes.awaits [World W] (awaitable : Awaitable table key target awaited shown)
    (goes : peer.Goes (Spares (key.place target) shown) last)
    (start : Awaits table key target awaited shown peer) :
    Awaits table key target awaited shown last := by
  induction goes with
  | rest => exact start
  | @beginWatch now handle scope value index _ ih =>
    obtain ⟨same, awaits⟩ := ih
    refine ⟨same, ?_⟩
    rw [Peer.beginWatch, watched_watching, same]
    exact awaits.beginWatch awaitable handle scope value index
  | @endWatch now serial time _ ih =>
    obtain ⟨same, awaits⟩ := ih
    refine ⟨same, ?_⟩
    rw [Peer.endWatch, watched_watching, same]
    exact awaits.endWatch awaitable serial time now.nextTick?
  | @flush now time force _ ih =>
    obtain ⟨same, awaits⟩ := ih
    refine ⟨(table_flush now time force).trans same, ?_⟩
    rw [buffer_flush, world_flush, same]
    exact awaits.flush awaitable
  | @removeScope now after scope _ removed allowed ih =>
    obtain ⟨same', awaits⟩ := ih
    have same := stage_removeScope removed
    have buffer : after.buffer = now.buffer.removeScope scope := congrArg Stage.buffer same
    rw [Spares, same'] at allowed
    refine ⟨(congrArg Stage.table same : after.table = now.table).trans same', ?_⟩
    rw [buffer]
    exact (awaits.happens awaitable allowed.1 allowed.2).removeScope scope
  | @happens now after _ same allowed ih =>
    obtain ⟨same', awaits⟩ := ih
    have buffer : after.buffer = now.buffer := congrArg Stage.buffer same
    rw [Spares, same'] at allowed
    refine ⟨(congrArg Stage.table same : after.table = now.table).trans same', ?_⟩
    rw [buffer]
    exact awaits.happens awaitable allowed.1 allowed.2

/-! ## Settling -/

/-- A field shows no floating-point number. -/
def IsExact (shown : Option Value) : Prop := ∀ value, shown = some value → value.isFloatFree = true

theorem IsExact.of_eq {shown : Option Value} {value : Value} (same : shown = some value)
    (plain : value.isFloatFree = true) : IsExact shown := by
  rintro other rfl
  cases same
  exact plain

theorem IsExact.awaitable (exact : IsExact awaited) (sound : table.registry.Sound)
    (cell : table.CellAt (key.place target)) (sits : ∃ handle, key.Sits table handle target) :
    Awaitable table key target awaited IsExact where
  sound
  cell
  sits
  exact shown := shown _ rfl
  awaited same := same ▸ exact

/-- What becomes of a sent change of a field, as a peer goes on. -/
structure Settling [World W] (peer : Peer W) (handle : Handle) (key : BufferKey) (target value : Value) :
    Prop where
  /-- What is buffered of the field is what was sent. -/
  kept {last : Peer W} {change : BufferedChange} :
    peer.Goes (Spares (key.place target) IsExact) last → last.buffer.change? key = some change →
      change.pending = value ∧ change.sent = true
  /-- A flush drops it exactly if the field shows it, or nothing any more. -/
  dropped_iff {last : Peer W} (now : Nat) (force : Bool) :
    peer.Goes (Spares (key.place target) IsExact) last →
      ((last.flush now force).2.buffer.change? key = none ↔
        last.buffer.change? key = none ∨
          ∀ live ∈ last.table.read? last.world (key.place target), live = value)
  /-- A field that shows it and is not set to anything else goes on showing it, whatever is watched. -/
  shows {last : Peer W} : peer.table.read? peer.world (key.place target) = some value →
    peer.Goes (Spares (key.place target) (· = some value)) last →
      last.table.read? last.world (key.place target) = some value
  /-- Once it is dropped, a watch on the field opens, and it opens on what the field shows. -/
  reopens {last later : Peer W} : peer.Goes (Spares (key.place target) IsExact) last →
    last.buffer.change? key = none → last.Goes (Spares (key.place target) IsExact) later →
      later.beginWatch handle key.scope target key.index = (.ok later.buffer.nextSerial, { later with
        buffer := later.buffer.opened key handle target
          (later.table.read? later.world (key.place target))
          (later.buffer.watches.any (·.key = key)) })

/-- A peer that waits for no change of a field watches it as it is. -/
theorem Awaits.beginWatch_eq (idle : peer.Awaits table key target none shown) {handle : Handle}
    {field : FieldHandler W}
    (keyed : ChangeBuffer.keyOf table handle key.scope target key.index = .ok (key, field)) :
    peer.beginWatch handle key.scope target key.index = (.ok peer.buffer.nextSerial, { peer with
      buffer := peer.buffer.opened key handle target (peer.table.read? peer.world (key.place target))
        (peer.buffer.watches.any (·.key = key)) }) := by
  obtain ⟨known, -, -⟩ := ChangeBuffer.keyOf_eq_ok keyed
  have plain : (if peer.buffer.watches.any (·.key = key) then none else peer.buffer.change? key) =
      none := by
    split
    · rfl
    · cases found : peer.buffer.change? key with
      | none => rfl
      | some change => cases (idle.awaits.sent found).1
  have begun : ChangeBuffer.beginWatch table handle key.scope target key.index
      ⟨peer.buffer, peer.world⟩ = .ok peer.buffer.nextSerial
        ⟨peer.buffer.opened key handle target (field.get peer.world key.scope target key.index)
          (peer.buffer.watches.any (·.key = key)), peer.world⟩ :=
    ChangeBuffer.beginWatch_plain keyed plain
  rw [Peer.beginWatch, watching, Watching.run, idle.knows, begun,
    HandlerTable.read?_eq (key.place target) (HandlerTable.field_eq_ok known)]
  rfl

/-- While no watch on the field is open, a peer that waits for a change sees it settle. -/
theorem Awaits.settling [World W] {value : Value} (awaits : peer.Awaits table key target (some value) IsExact)
    (sound : table.registry.Sound) (cell : table.CellAt (key.place target)) {handle : Handle}
    {field : FieldHandler W}
    (keyed : ChangeBuffer.keyOf table handle key.scope target key.index = .ok (key, field))
    (plain : value.isFloatFree = true) (free : key.place target ∉ peer.buffer.openPlaces) :
    peer.Settling handle key target value := by
  obtain ⟨known, encoded, -⟩ := ChangeBuffer.keyOf_eq_ok keyed
  have sits : key.Sits table handle target := ⟨field, known, encoded⟩
  have awaitable : Awaitable table key target (some value) IsExact :=
    (IsExact.of_eq rfl plain).awaitable sound cell ⟨handle, sits⟩
  refine ⟨fun goes found => ?_, fun now force goes => ?_, fun shown goes => ?_,
    fun {last later} goes gone goes' => ?_⟩
  · obtain ⟨pending, sent⟩ := (goes.awaits awaitable awaits).awaits.sent found
    exact ⟨(Option.some.inj pending).symm, sent⟩
  · obtain ⟨same, waits⟩ := goes.awaits awaitable awaits
    rw [buffer_flush, same, waits.dropped_iff awaitable]
    simp only [Option.mem_def, Option.some.injEq, eq_comm]
  -- Since no watch on the field is open, there is nothing else that it may be put back to.
  · have strictly : Awaitable table key target (some value) (· = some value) :=
      { awaitable with
        exact := fun same => Option.some.inj same ▸ plain
        awaited := fun same => same.symm }
    have start : peer.Awaits table key target (some value) (· = some value) := by
      refine ⟨awaits.knows, { awaits.awaits with
        shows := awaits.knows ▸ shown
        actual := fun _ either => ?_ }⟩
      rcases either with ⟨watch, member, same⟩ | none
      · exact absurd (awaits.awaits.tidy.watched sound sits member same) free
      · cases none
    obtain ⟨same, waits⟩ := goes.awaits strictly start
    exact same ▸ waits.shows
  · obtain ⟨same, waits⟩ := goes.awaits awaitable awaits
    have nothing : IsExact none := fun _ none => by cases none
    have start : last.Awaits table key target none IsExact :=
      ⟨same, { waits with sent := fun found => by cases gone.symm.trans found }⟩
    exact (goes'.awaits (nothing.awaitable sound cell ⟨handle, sits⟩) start).beginWatch_eq keyed

/-- What a flush has sent carries the change to its field. -/
theorem Sends.carries {change : BufferedChange} {now : Nat} {force : Bool}
    (sends : peer.Sends now force key change) (tidy : peer.buffer.Tidy peer.table)
    (same : change.target = target) {handle : Handle} {field : FieldHandler W}
    (known : peer.table.field handle = .ok (key.handler, field)) :
    ∃ pending, peer.table.captureField peer.config.debugMode change.handle change.scope peer.ambient
        change.target change.index change.pending = .ok pending ∧
      pending.message ∈ (peer.flush now force).2.outbox ∧ pending.handler = key.handler ∧
      peer.table.Carries change.handle key.scope peer.ambient (.field target key.index change.pending)
        pending (.field field) := by
  obtain ⟨pending, captured, arrived⟩ := sends.captured tidy
  obtain ⟨⟨own, known', -⟩, sameScope, sameIndex⟩ := tidy.changes sends.found
  have handles : some (Handler.field own) = some (Handler.field field) :=
    (HandlerTable.field_eq_ok known').symm.trans (HandlerTable.field_eq_ok known)
  cases handles
  refine ⟨pending, captured, arrived, ?_⟩
  rw [sameScope, same, sameIndex] at captured
  exact HandlerTable.carries_of_captureField captured known'

/-- From the flush that sends a change on, a peer waits for it. -/
theorem Sends.awaits {change : BufferedChange} {now : Nat} {force : Bool}
    (sends : peer.Sends now force key change) (knows : peer.table = table)
    (tidy : peer.buffer.Tidy table) (same : change.target = target)
    (free : ∀ watch ∈ peer.buffer.watches, watch.key ≠ key)
    (shows : shown (table.read? peer.world (key.place target))) :
    (peer.flush now force).2.Awaits table key target (some change.pending) shown := by
  subst knows same
  refine ⟨table_flush peer now force, {
    tidy := tidy.flush
    shows := (world_flush peer now force).symm ▸ shows
    sent := fun found => ?_
    actual := fun found _ => ?_
    opened := fun member same => absurd same (free _ member) }⟩
  · obtain ⟨before, found', -, pending, -⟩ := tidy.change?_of_flush found
    cases found'.symm.trans sends.found
    have sent := sends.sent
    rw [found] at sent
    exact ⟨congrArg some pending.symm, Option.some.inj sent⟩
  · obtain ⟨before, found', -, -, -, actual⟩ := tidy.change?_of_flush found
    cases found'.symm.trans sends.found
    exact actual ▸ shows

variable [World W]

/-- A tick leaves settings, handlers and buffer alone. -/
theorem stage_advance (peer : Peer W) (scope : ScopeId) :
    (peer.advance scope).2.stage = { peer.stage with world := (peer.advance scope).2.world } := by
  cases due : peer.dueTick? scope with
  | none =>
    have waited := stage_advance_waiting due
    rw [waited, show (peer.advance scope).2.world = peer.world from congrArg Stage.world waited]
    rfl
  | some next =>
    obtain ⟨context, commands, host⟩ := next
    obtain ⟨-, advanced⟩ := stage_advance_due due
    rw [advanced, show (peer.advance scope).2.world = _ from congrArg Stage.world advanced]

theorem goes_advance {may : Peer W → W → Prop} (scope : ScopeId)
    (allowed : may peer (peer.advance scope).2.world) : peer.Goes may (peer.advance scope).2 :=
  .happens .rest (stage_advance peer scope) allowed

/-- In the next tick of a scope a command runs on this state. -/
def Reaches (peer : Peer W) (scope : ScopeId) (command : Command) (context : CallContext)
    (state : HostState W) : Prop :=
  ∃ earlier later host, peer.dueTick? scope = some (context, earlier ++ command :: later, host) ∧
    state = (runCommands peer.table context earlier host).2

theorem Reaches.scope_eq {scope : ScopeId} {command : Command} {context : CallContext}
    {state : HostState W} (reaches : peer.Reaches scope command context state) :
    context.scope = scope := by
  obtain ⟨earlier, later, host, due, -⟩ := reaches
  unfold dueTick? at due
  split at due
  next => cases due
  next =>
    split at due
    next => cases due
    next =>
      simp only [Option.some.injEq, Prod.mk.injEq] at due
      rw [← due.1]

/-- A change that a watch has left in the buffer is sent as a captured command. The field that the
command lands in is left with the value, or as it was if the host refuses it. Once the command has run
while no watch on the changed field was open, the change settles by its value: a flush drops it exactly
if the field shows it then, and a value that was shown and has not been replaced is shown. A change that
has been dropped does not come back. -/
theorem settles_when_shown {declarations : List Declaration} {start edited : Peer W} {handle : Handle}
    {key : BufferKey} {field : FieldHandler W} {target : Value} {kind : ScalarKind}
    {change : BufferedChange} {now : Nat} {force : Bool}
    (built : Registry.build declarations = .ok start.table.registry)
    (unchanged : start.buffer.entries = []) (unwatched : start.buffer.watches = [])
    (lived : start.Goes (fun _ _ => True) edited)
    (keyed : ChangeBuffer.keyOf start.table handle key.scope target key.index = .ok (key, field))
    (cell : start.table.CellAt (key.place target)) (scalar : field.value = .scalar kind)
    (integer : kind.isInteger = true)
    (sends : edited.Sends now force key change) (free : key.place target ∉ edited.buffer.openPlaces)
    (exact : IsExact (start.table.read? edited.world (key.place target))) :
    ∃ pending : PendingCommand,
      edited.table.captureField edited.config.debugMode change.handle change.scope edited.ambient
        change.target change.index change.pending = .ok pending ∧
      pending.message ∈ (edited.flush now force).2.outbox ∧
      ∀ {running : Peer W} {tick : Tick} {context : CallContext} {reached : HostState W},
        (edited.flush now force).2.Goes (Spares (key.place target) IsExact) running →
        running.Reaches key.scope (pending.stamp tick) context reached →
        key.place target ∉ running.buffer.openPlaces →
        IsExact (start.table.read? (running.advance key.scope).2.world (key.place target)) →
        (start.table.CellAt (field.lands (key.place target)) →
          start.table.registry.Stands (World.resolver reached.world) key.scope target →
          start.table.Answers (field.lands (key.place target)) change.pending reached.world
            (runCommand start.table context (pending.stamp tick) reached).2.world
            (runCommand start.table context (pending.stamp tick) reached).1) ∧
        (running.advance key.scope).2.Settling handle key target change.pending := by
  have sound := Registry.sound_of_build built
  obtain ⟨known, encoded, -⟩ := ChangeBuffer.keyOf_eq_ok keyed
  have sits : key.Sits start.table handle target := ⟨field, known, encoded⟩
  obtain ⟨table, tidy⟩ := lived.tidy (.of_empty unchanged unwatched start.table)
  have same := (tidy.changes sends.found).1.target_eq sound sits
  obtain ⟨pending, captured, arrived, handler, carries⟩ :=
    sends.carries (table ▸ tidy) same (table ▸ known)
  refine ⟨pending, captured, arrived, ?_⟩
  rw [table] at carries
  obtain ⟨_, isScalar, _⟩ := carries.scalar scalar
  have plain := carries.isFloatFree scalar integer
  have awaitable : Awaitable start.table key target (some change.pending) IsExact :=
    (IsExact.of_eq rfl plain).awaitable sound cell ⟨handle, sits⟩
  have waiting := sends.awaits table tidy same
    (fun watch member here => free (tidy.watched sound sits member here)) exact
  intro running tick context reached goes reaches closed exact'
  have waits := goes.awaits awaitable waiting
  refine ⟨fun lands stands => ?_, ?_⟩
  · refine lands.runCommand sound carries handler reaches.scope_eq tick stands ?_
    rw [isScalar]
    trivial
  · have ran : running.Goes (Spares (key.place target) IsExact) (running.advance key.scope).2 :=
      goes_advance key.scope ⟨waits.knows ▸ exact', fun watched => absurd watched closed⟩
    have buffer : (running.advance key.scope).2.buffer = running.buffer :=
      congrArg Stage.buffer (stage_advance running key.scope)
    exact (ran.awaits awaitable waits).settling sound cell keyed plain (buffer ▸ closed)

end Peer

/-! ## On the level -/

namespace Peer

/-- What a peer has sent comes back to it. -/
def loopedBack (peer : Peer W) : Peer W := ((peer.loopBack 0).toOption.getD (0, peer)).2

theorem stage_loopedBack (peer : Peer W) : peer.loopedBack.stage = peer.stage := by
  rw [loopedBack]
  cases looped : peer.loopBack 0 with
  | error _ => rfl
  | ok answer => exact stage_loopBack looped

theorem goes_loopedBack [World W] {may : Peer W → W → Prop} {peer : Peer W}
    (allowed : may peer peer.world) : peer.Goes may peer.loopedBack := by
  have same := stage_loopedBack peer
  have world : peer.loopedBack.world = peer.world := congrArg Stage.world same
  refine .happens .rest ?_ (world ▸ allowed)
  rw [same, world]
  rfl

/-- Watch the level of the first target. -/
def watchLevel (peer : Peer Lab) : Except WatchError Nat × Peer Lab :=
  peer.beginWatch 0 .global (.scalar (.i32 1)) none

/-- The level is edited to a five under a watch. -/
def editLevel (peer : Peer Lab) : Peer Lab :=
  ({ peer.watchLevel.2 with world := levelEdit peer.watchLevel.2.world }.endWatch 0 0).2

/-- The level is edited, and the change is sent. -/
def sendLevel (peer : Peer Lab) : Peer Lab := (peer.editLevel.flush 0 true).2

end Peer

def levelKey : BufferKey := ⟨0, .global, [1, 0, 0, 0], none⟩

theorem keyOf_level : ChangeBuffer.keyOf levelPeer.table 0 .global (.scalar (.i32 1)) none =
    .ok (levelKey, level.handler 0) := by
  have known : levelPeer.table.field 0 = .ok (0, level.handler 0) := by rfl
  have encoded : levelPeer.table.registry.encode (level.handler 0).target (.scalar (.i32 1)) =
      .ok [1, 0, 0, 0] := by decide +kernel
  rw [ChangeBuffer.keyOf, known]
  simp only [bind, Except.bind]
  rw [encoded]
  rfl

/-- The command that sets the level to a five. -/
def levelPending : PendingCommand := ⟨0, .global, [1, 0, 0, 0, 5, 0, 0, 0]⟩

theorem sends_level : ∃ change, levelPeer.editLevel.Sends 0 true levelKey change ∧
    change.pending = .scalar (.i32 5) ∧
    levelPeer.editLevel.table.captureField levelPeer.editLevel.config.debugMode change.handle
      change.scope levelPeer.editLevel.ambient change.target change.index change.pending =
        .ok levelPending := by
  obtain ⟨change, found⟩ := Option.isSome_iff_exists.mp
    (show (levelPeer.editLevel.buffer.change? levelKey).isSome by decide +kernel)
  have left : (levelPeer.editLevel.buffer.change? levelKey).map (fun change =>
      (change.sent, change.pending, levelPeer.editLevel.table.captureField
        levelPeer.editLevel.config.debugMode change.handle change.scope levelPeer.editLevel.ambient
        change.target change.index change.pending)) =
      some (false, .scalar (.i32 5), .ok levelPending) := by decide +kernel
  rw [found] at left
  obtain ⟨unsent, rest⟩ := Prod.mk.inj (Option.some.inj left)
  obtain ⟨five, captured⟩ := Prod.mk.inj rest
  exact ⟨change, ⟨found, unsent, by decide +kernel⟩, five, captured⟩

theorem due_level : ∃ context host,
    levelPeer.sendLevel.loopedBack.dueTick? .global =
      some (context, [levelPending.stamp 0], host) ∧
    (runCommand levelPeer.table context (levelPending.stamp 0) host).1 = .ok .executed := by
  obtain ⟨⟨context, commands, host⟩, due⟩ := Option.isSome_iff_exists.mp
    (show (levelPeer.sendLevel.loopedBack.dueTick? .global).isSome by decide +kernel)
  have ran : (levelPeer.sendLevel.loopedBack.dueTick? .global).map (fun (context, commands, host) =>
      (commands, (runCommand levelPeer.table context (levelPending.stamp 0) host).1)) =
      some ([levelPending.stamp 0], .ok .executed) := by decide +kernel
  rw [due] at ran
  obtain ⟨only, executed⟩ := Prod.mk.inj (Option.some.inj ran)
  cases only
  exact ⟨context, host, due, executed⟩

/-- A five that comes back is what the level shows, so a flush drops it, and the next watch opens on
it. -/
theorem level_returns :
    (∃ context host, levelPeer.sendLevel.loopedBack.dueTick? .global =
      some (context, [levelPending.stamp 0], host) ∧
      levelPeer.table.read? (runCommand levelPeer.table context (levelPending.stamp 0) host).2.world
        levelPlace = some (.scalar (.i32 5))) ∧
    let last := ((levelPeer.sendLevel.loopedBack.advance .global).2.flush 1 false).2
    last.buffer.change? levelKey = none ∧ last.watchLevel.1 = .ok last.buffer.nextSerial ∧
      last.table.read? last.watchLevel.2.world levelPlace = some (.scalar (.i32 5)) := by
  have built : Registry.build [] = .ok levelPeer.table.registry := by rfl
  have lived : levelPeer.Goes (fun _ _ => True) levelPeer.editLevel :=
    .endWatch 0 0 (.happens (.beginWatch 0 .global (.scalar (.i32 1)) none .rest) rfl trivial)
  have cell : levelPeer.table.CellAt (levelKey.place (.scalar (.i32 1))) :=
    Lab.cellAt levelTable_isPlain.slotted levelPlace
  have scalar : (level.handler 0).value = .scalar .i32 := rfl
  obtain ⟨change, sends, five, asked⟩ := sends_level
  obtain ⟨pending, captured, -, settles⟩ :=
    Peer.settles_when_shown built rfl rfl lived keyOf_level cell scalar rfl sends (by decide +kernel)
      (.of_eq (show _ = some (.scalar (.i32 3)) by decide +kernel) rfl)
  cases asked.symm.trans captured
  obtain ⟨context, host, due, executed⟩ := due_level
  have back : levelPeer.sendLevel.Goes
      (Peer.Spares (levelKey.place (.scalar (.i32 1))) Peer.IsExact) levelPeer.sendLevel.loopedBack :=
    Peer.goes_loopedBack
      ⟨.of_eq (show _ = some (.scalar (.i32 3)) by decide +kernel) rfl, fun _ => rfl⟩
  obtain ⟨answers, settling⟩ := settles back ⟨[], [], host, due, rfl⟩ (by decide +kernel)
    (.of_eq (show _ = some (.scalar (.i32 5)) by decide +kernel) rfl)
  rw [five] at answers settling
  have lands : (level.handler 0).lands (levelKey.place (.scalar (.i32 1))) = levelPlace :=
    FieldHandler.lands_eq_self rfl
  rw [lands] at answers
  refine ⟨⟨context, host, due, (answers cell trivial).executed executed⟩, ?_⟩
  have reads : (levelPeer.sendLevel.loopedBack.advance .global).2.table.read?
      (levelPeer.sendLevel.loopedBack.advance .global).2.world (levelKey.place (.scalar (.i32 1))) =
        some (.scalar (.i32 5)) := by decide +kernel
  have gone := (settling.dropped_iff 1 false .rest).mpr (.inr fun live shown => by
    cases shown.symm.trans reads
    rfl)
  have opens := settling.reopens (.flush 1 false .rest) gone .rest
  refine ⟨gone, congrArg Prod.fst opens, ?_⟩
  have world := congrArg (·.2.world) opens
  exact (congrArg (HandlerTable.read? _ · levelPlace) world).trans
    (settling.shows reads (.flush 1 false .rest))

/-- A peer that knows of one field. -/
def LabField.peer? (field : LabField) : Option (Peer Lab) := do
  let registry ← (Registry.build []).toOption
  let table ← (HandlerTable.build registry none (Lab.handlers [.field field])).toOption
  (Peer.create {} table {}).toOption

/-- A level that refuses a five. -/
def cappedLevel : LabField := { level with rejected := [.scalar (.i32 5)] }

def cappedPeer : Peer Lab := cappedLevel.peer?.get (by decide +kernel)

/-- A level that is set at an index. -/
def indexedLevel : LabField := { level with indexed := true }

def indexedPeer : Peer Lab := indexedLevel.peer?.get (by decide +kernel)

/-- A five stays buffered if the host refuses it, if a seven comes with it, or if it comes back at an
index that the watch did not have. -/
theorem level_stays :
    (cappedPeer.table.CellAt levelPlace ∧
      let (answer, peer) := cappedPeer.sendLevel.loopedBack.advance .global
      let last := (peer.flush 1 false).2
      answer.toOption.join.map (·.failures) = some [.invoke "level" (.rejected "i32 refused")] ∧
        last.buffer.watches.isEmpty ∧ (last.buffer.change? levelKey).isSome ∧
        last.watchLevel.1 = .error (.rollback "level" (.rejected "i32 refused"))) ∧
    (levelPeer.table.CellAt levelPlace ∧
      let (answer, peer) := (levelPeer.sendLevel.loopedBack.enqueue levelCommand).advance .global
      let last := (peer.flush 1 false).2
      answer.toOption.join.map (·.executed) = some 2 ∧
        last.buffer.watches.isEmpty ∧ (last.buffer.change? levelKey).isSome ∧
        last.table.read? last.world levelPlace = some (.scalar (.i32 7)) ∧
        last.table.read? last.watchLevel.2.world levelPlace = some (.scalar (.i32 5))) ∧
    (indexedPeer.table.CellAt levelPlace ∧
      let (answer, peer) := indexedPeer.sendLevel.loopedBack.advance .global
      let last := (peer.flush 1 false).2
      answer.toOption.join.map (·.executed) = some 1 ∧
        last.buffer.watches.isEmpty ∧ (last.buffer.change? levelKey).isSome) := by
  have capped : cappedPeer.table.handlers = [.field (cappedLevel.handler 0)] := by rfl
  have indexed : indexedPeer.table.handlers = [.field (indexedLevel.handler 0)] := by rfl
  refine ⟨⟨Lab.cellAt (Lab.isSlotted_of_single capped) _, ?_⟩,
    ⟨Lab.cellAt levelTable_isPlain.slotted _, ?_⟩,
    ⟨Lab.cellAt (Lab.isSlotted_of_single indexed) _, ?_⟩⟩
  · decide +kernel
  · decide +kernel
  · decide +kernel

end Lockstep
