import Lockstep.Proofs.Association
import Lockstep.Proofs.Handler.Table
import Lockstep.Watch.Buffer

/-! # What watches do, case by case

Each action on a buffer of changes comes down to one of a few outcomes. They are stated here as
equations, for whichever host, so that nobody has to run an action again.
-/

namespace Lockstep

variable {W : Type}

namespace Watching

variable {handler : FieldHandler W} {scope : ScopeId} {target value : Value}
  {index : Option Int32} {watched : Watched W} {next : W}

theorem get_eq (watched : Watched W) :
    (EStateM.get : Watching W (Watched W)) watched = .ok watched watched :=
  rfl

theorem read_eq :
    read handler scope target index watched =
      .ok (handler.get watched.world scope target index) watched := rfl

theorem editBuffer_eq (f : ChangeBuffer → ChangeBuffer) :
    editBuffer f watched = .ok () { watched with buffer := f watched.buffer } := rfl

theorem write_eq {world : W} (written : handler.set scope target index value world = .ok () next)
    (buffer : ChangeBuffer) :
    write handler scope target index value ⟨buffer, world⟩ = .ok () ⟨buffer, next⟩ := by
  rw [write, written]

end Watching

/-- Changes of the same field, made by the same handle. -/
structure BufferedChange.Alongside (change other : BufferedChange) : Prop where
  handle : change.handle = other.handle
  scope : change.scope = other.scope
  target : change.target = other.target
  index : change.index = other.index

namespace ChangeBuffer

variable {table : HandlerTable W} {buffer : ChangeBuffer} {key : BufferKey}
  {handler : FieldHandler W} {world next : W}

theorem keyOf_eq_ok {handle : Handle} {scope : ScopeId} {target : Value} {index : Option Int32}
    (keyed : keyOf table handle scope target index = .ok (key, handler)) :
    table.field handle = .ok (key.handler, handler) ∧
      table.registry.encode handler.target target = .ok key.target ∧
      key.scope = scope ∧ key.index = index := by
  obtain ⟨⟨id, field⟩, found, keyed⟩ := bind_eq_ok.mp keyed
  obtain ⟨encoded, written, keyed⟩ := bind_eq_ok.mp keyed
  cases keyed
  exact ⟨found, mapError_eq_ok.mp written, rfl, rfl⟩

/-! ## Looking up changes -/

theorem change?_update_self (f : BufferedChange → BufferedChange) :
    (buffer.update key f).change? key = (buffer.change? key).map f := by
  rw [change?, change?, update]
  generalize buffer.entries = entries
  induction entries with
  | nil => rfl
  | cons entry rest ih =>
    rw [List.map_cons, List.lookup_cons, List.lookup_cons]
    by_cases same : entry.1 = key
    · rw [if_pos same, same, beq_self_eq_true]
      rfl
    · rw [if_neg same, beq_eq_false_iff_ne.mpr (Ne.symm same)]
      exact ih

theorem change?_update_of_ne {other : BufferKey} (f : BufferedChange → BufferedChange)
    (ne : other ≠ key) : (buffer.update key f).change? other = buffer.change? other := by
  rw [change?, change?, update]
  generalize buffer.entries = entries
  induction entries with
  | nil => rfl
  | cons entry rest ih =>
    rw [List.map_cons, List.lookup_cons, List.lookup_cons]
    by_cases same : entry.1 = key
    · rw [if_pos same, same, beq_eq_false_iff_ne.mpr ne]
      exact ih
    · rw [if_neg same, ih]

/-- A change of an updated buffer is one that was there, or the updated one. -/
theorem change?_of_update {other : BufferKey} {change : BufferedChange}
    {f : BufferedChange → BufferedChange}
    (found : (buffer.update key f).change? other = some change) :
    ∃ old, buffer.change? other = some old ∧ (change = old ∨ other = key ∧ change = f old) := by
  by_cases here : other = key
  · subst here
    rw [change?_update_self] at found
    obtain ⟨old, before, rfl⟩ := Option.map_eq_some_iff.mp found
    exact ⟨old, before, .inr ⟨rfl, rfl⟩⟩
  · rw [change?_update_of_ne f here] at found
    exact ⟨change, found, .inl rfl⟩

theorem keys_update (f : BufferedChange → BufferedChange) :
    (buffer.update key f).entries.map (·.1) = buffer.entries.map (·.1) := by
  rw [update, List.map_map]
  refine List.map_congr_left fun entry _ => ?_
  by_cases here : entry.1 = key
  · simp [here]
  · simp [here]

theorem change?_add_self {change : BufferedChange} (fresh : buffer.change? key = none) :
    (buffer.add key change).change? key = some change := by
  rw [change?] at fresh
  rw [change?, add, List.lookup_append, fresh, Option.none_or, List.lookup_cons_self]

theorem change?_add_of_ne {other : BufferKey} {change : BufferedChange} (ne : other ≠ key) :
    (buffer.add key change).change? other = buffer.change? other := by
  rw [change?, change?, add, List.lookup_append, List.lookup_cons, beq_eq_false_iff_ne.mpr ne,
    List.lookup_nil,
    Option.or_none]

/-- A change of a buffer with one more is the added one, or was there. -/
theorem change?_of_add {other : BufferKey} {change left : BufferedChange}
    (fresh : buffer.change? key = none) (found : (buffer.add key change).change? other = some left) :
    (other = key ∧ left = change) ∨ buffer.change? other = some left := by
  by_cases here : other = key
  · subst here
    rw [change?_add_self fresh] at found
    exact .inl ⟨rfl, (Option.some.inj found).symm⟩
  · rw [change?_add_of_ne here] at found
    exact .inr found

/-- With a scope go its changes, and no others. -/
theorem change?_removeScope (scope : ScopeId) :
    (buffer.removeScope scope).change? key =
      if key.scope = scope then none else buffer.change? key := by
  rw [change?, change?, removeScope]
  induction buffer.entries with
  | nil => simp
  | cons entry entries ih =>
    obtain ⟨other, change⟩ := entry
    rw [List.filter_cons, List.lookup_cons]
    by_cases here : key = other
    · subst here
      by_cases gone : key.scope = scope
      · simpa [gone] using ih
      · simp [gone]
    · have apart : (key == other) = false := beq_eq_false_iff_ne.mpr here
      split
      · simpa [List.lookup_cons, apart] using ih
      · simpa [apart] using ih

/-! ## Opening -/

/-- A buffer with one more open watch. -/
def opened (buffer : ChangeBuffer) (key : BufferKey) (handle : Handle) (target : Value)
    (before : Option Value) (shadowed : Bool) : ChangeBuffer :=
  { buffer with
    watches :=
      { serial := buffer.nextSerial, key, handle, target, before, shadowed } :: buffer.watches
    nextSerial := buffer.nextSerial + 1 }

variable {handle : Handle} {scope : ScopeId} {target : Value} {index : Option Int32}

theorem beginWatch_refused {error : CaptureError}
    (keyed : keyOf table handle scope target index = .error error) :
    beginWatch table handle scope target index ⟨buffer, world⟩ =
      .error (.capture error) ⟨buffer, world⟩ := by
  rw [beginWatch, keyed]
  rfl

/-- A watch that puts nothing back opens on what the world shows. -/
theorem beginWatch_plain (keyed : keyOf table handle scope target index = .ok (key, handler))
    (plain : (if buffer.watches.any (·.key = key) then none else buffer.change? key) = none) :
    beginWatch table handle scope target index ⟨buffer, world⟩ =
      .ok buffer.nextSerial ⟨buffer.opened key handle target (handler.get world scope target index)
        (buffer.watches.any (·.key = key)), world⟩ := by
  rw [beginWatch, keyed]
  simp only [bind, EStateM.bind, get, getThe, MonadStateOf.get, Watching.get_eq, plain]
  rfl

/-- A watch on a changed field puts the change back, and opens on it. -/
theorem beginWatch_pending {change : BufferedChange}
    (keyed : keyOf table handle scope target index = .ok (key, handler))
    (fresh : buffer.watches.any (·.key = key) = false) (found : buffer.change? key = some change)
    (written : handler.set scope target index change.pending world = .ok () next) :
    beginWatch table handle scope target index ⟨buffer, world⟩ =
      .ok buffer.nextSerial ⟨(buffer.update key fun change => { change with
        actual := (handler.get world scope target index).getD change.actual }).opened key handle
          target (handler.get next scope target index) false, next⟩ := by
  rw [beginWatch, keyed]
  simp only [bind, EStateM.bind, get, getThe, MonadStateOf.get, Watching.get_eq, fresh, found,
    Bool.false_eq_true, if_false,
    Watching.read_eq, Watching.editBuffer_eq, Watching.write_eq written]
  rfl

/-! ## Closing -/

variable {now : Nat} {currentTick : ScopeId → Option Tick} {watch : OpenWatch} {id : HandlerId}

theorem settle_shadowed (shadowed : watch.shadowed = true) :
    settle table now currentTick watch ⟨buffer, world⟩ = .ok .nested ⟨buffer, world⟩ := by
  rw [settle, if_pos shadowed]
  rfl

theorem settle_unresolved (seen : watch.shadowed = false)
    (known : table.field watch.handle = .ok (id, handler)) (none : watch.before = none) :
    settle table now currentTick watch ⟨buffer, world⟩ = .ok .unresolved ⟨buffer, world⟩ := by
  rw [settle, seen, known]
  simp only [bind, EStateM.bind, get, getThe, MonadStateOf.get, Watching.get_eq,
    Bool.false_eq_true, if_false,
    Watching.read_eq, none]
  cases buffer.change? watch.key with
  | none => rfl
  | some change => rfl

theorem settle_unchanged {before after : Value} (seen : watch.shadowed = false)
    (known : table.field watch.handle = .ok (id, handler)) (fresh : buffer.change? watch.key = none)
    (opened : watch.before = some before)
    (left : handler.get world watch.key.scope watch.target watch.key.index = some after)
    (same : after.equal before = true) :
    settle table now currentTick watch ⟨buffer, world⟩ = .ok .unchanged ⟨buffer, world⟩ := by
  rw [settle, seen, known]
  simp only [bind, EStateM.bind, get, getThe, MonadStateOf.get, Watching.get_eq,
    Bool.false_eq_true, if_false,
    Watching.read_eq, fresh, opened, left, same, if_true]
  rfl

/-- A first edit is taken back, and kept as a change. -/
theorem settle_edited {before after : Value} (seen : watch.shadowed = false)
    (known : table.field watch.handle = .ok (id, handler)) (fresh : buffer.change? watch.key = none)
    (opened : watch.before = some before)
    (left : handler.get world watch.key.scope watch.target watch.key.index = some after)
    (differs : after.equal before = false)
    (written : handler.set watch.key.scope watch.target watch.key.index before world =
        .ok () next) :
    settle table now currentTick watch ⟨buffer, world⟩ = .ok .buffered ⟨buffer.add watch.key {
      handle := watch.handle, scope := watch.key.scope, target := watch.target, index :=
        watch.key.index, actual := before
      pending := after, sent := false, stamp := now, stampTick :=
          (currentTick watch.key.scope).getD 0 }, next⟩ := by
  rw [settle, seen, known]
  simp only [bind, EStateM.bind, get, getThe, MonadStateOf.get, Watching.get_eq,
    Bool.false_eq_true, if_false,
    Watching.read_eq, fresh, opened, left, differs, Watching.write_eq written,
      Watching.editBuffer_eq]
  rfl

/-- A later edit replaces the change, and the world goes back to what it showed before the first
one. -/
theorem settle_changed {before after : Value} {change : BufferedChange}
    (seen : watch.shadowed = false) (known : table.field watch.handle = .ok (id, handler))
    (found : buffer.change? watch.key = some change)
    (opened : watch.before = some before)
    (left : handler.get world watch.key.scope watch.target watch.key.index = some after)
    (written : handler.set watch.key.scope watch.target watch.key.index change.actual world =
        .ok () next) :
    settle table now currentTick watch ⟨buffer, world⟩ =
      .ok (if !after.equal before then .updated else .unchanged)
        ⟨if !after.equal before then buffer.update watch.key fun change =>
          { change with pending := after, sent := false }
          else buffer, next⟩ := by
  rw [settle, seen, known]
  simp only [bind, EStateM.bind, get, getThe, MonadStateOf.get, Watching.get_eq,
    Bool.false_eq_true, if_false,
    Watching.read_eq, found, opened, left]
  cases after.equal before with
  | true =>
    simp only [Bool.not_true, Bool.false_eq_true, if_false, EStateM.bind, Watching.write_eq written]
    rfl
  | false =>
    simp only [Bool.not_false, if_true, EStateM.bind, Watching.editBuffer_eq,
      Watching.write_eq written]
    rfl

variable {serial : Nat} {rest : List OpenWatch}

theorem endWatch_idle (stack : buffer.watches = []) :
    endWatch table serial now currentTick ⟨buffer, world⟩ =
      .error (.closed serial) ⟨buffer, world⟩ := by
  simp only [endWatch, bind, EStateM.bind, get, getThe, MonadStateOf.get, Watching.get_eq, stack]
  rfl

theorem endWatch_innermost (stack : buffer.watches = watch :: rest)
    (inner : watch.serial = serial) :
    endWatch table serial now currentTick ⟨buffer, world⟩ =
      settle table now currentTick watch ⟨{ buffer with watches := rest }, world⟩ := by
  simp only [endWatch, bind, EStateM.bind, get, getThe, MonadStateOf.get, Watching.get_eq,
    stack, if_pos inner,
    Watching.editBuffer_eq]

theorem endWatch_closed (stack : buffer.watches = watch :: rest) (outer : watch.serial ≠ serial)
    (gone : (watch :: rest).any (·.serial = serial) = false) :
    endWatch table serial now currentTick ⟨buffer, world⟩ =
      .error (.closed serial) ⟨buffer, world⟩ := by
  simp only [endWatch, bind, EStateM.bind, get, getThe, MonadStateOf.get, Watching.get_eq, stack,
    if_neg outer, gone,
    Bool.false_eq_true, if_false]
  rfl

/-- A watch that is not the innermost takes those above it along. -/
theorem endWatch_crossed (stack : buffer.watches = watch :: rest) (outer : watch.serial ≠ serial)
    (open_ : (watch :: rest).any (·.serial = serial) = true) :
    endWatch table serial now currentTick ⟨buffer, world⟩ =
      (unwind table now currentTick
        (buffer.watches.take (buffer.watches.findIdx (·.serial = serial) + 1)) >>= fun _ =>
          throw (.crossed watch.serial serial))
        ⟨buffer, world⟩ := by
  simp only [endWatch, bind, EStateM.bind, get, getThe, MonadStateOf.get, Watching.get_eq, stack,
    if_neg outer, open_,
    if_true]

/-! ## Flushing -/

variable {ε β : Type} {interval : FlushInterval} {force : Bool} {send : BufferedChange → Except ε β}

theorem entries_flush :
    (buffer.flush table world now currentTick interval force send).2.entries =
      buffer.entries.filterMap fun entry =>
      (flushChange table world now currentTick interval force send entry.2).1.map (entry.1, ·) := by
  simp only [flush, List.filterMap_map]
  rfl

theorem change?_flush (distinct : (buffer.entries.map (·.1)).Nodup) :
    (buffer.flush table world now currentTick interval force send).2.change? key =
      (buffer.change? key).bind fun change =>
        (flushChange table world now currentTick interval force send change).1 := by
  rw [change?, change?, entries_flush]
  exact lookup_filterMap
    (fun _ change => (flushChange table world now currentTick interval force send change).1)
    distinct key

theorem distinct_flush (distinct : (buffer.entries.map (·.1)).Nodup) :
    ((buffer.flush table world now currentTick interval force send).2.entries.map (·.1)).Nodup := by
  rw [entries_flush]
  exact distinct.sublist (keys_filterMap (fun _ change =>
    (flushChange table world now currentTick interval force send change).1) buffer.entries)

variable {change : BufferedChange} {live : Value}

/-- A change that the world shows already is dropped. -/
theorem flushChange_shown (known : table.field change.handle = .ok (id, handler))
    (shown : handler.get world change.scope change.target change.index = some live)
    (same : live.equal change.pending = true) :
    flushChange table world now currentTick interval force send change = (none, none) := by
  rw [flushChange, known]
  simp only [shown, same, if_true]

/-- A change of a field that has gone is dropped. -/
theorem flushChange_gone (known : table.field change.handle = .ok (id, handler))
    (gone : handler.get world change.scope change.target change.index = none) :
    (flushChange table world now currentTick interval force send change).1 = none := by
  rw [flushChange, known]
  simp only [gone]

/-- Any other is kept, and what the world shows is taken for what is agreed on. -/
theorem flushChange_kept (known : table.field change.handle = .ok (id, handler))
    (shown : handler.get world change.scope change.target change.index = some live)
    (differs : live.equal change.pending = false) :
    ∃ kept, (flushChange table world now currentTick interval force send change).1 = some kept ∧
      kept.Alongside change ∧ kept.actual = live ∧ kept.pending = change.pending := by
  rw [flushChange, known]
  simp only [shown, differs, Bool.false_eq_true, if_false]
  split
  · exact ⟨_, rfl, ⟨rfl, rfl, rfl, rfl⟩, rfl, rfl⟩
  · split
    · split
      · exact ⟨_, rfl, ⟨rfl, rfl, rfl, rfl⟩, rfl, rfl⟩
      · exact ⟨_, rfl, ⟨rfl, rfl, rfl, rfl⟩, rfl, rfl⟩
    · exact ⟨_, rfl, ⟨rfl, rfl, rfl, rfl⟩, rfl, rfl⟩

/-- What a flush can do with a change: drop it, keep it for what the world shows now, and then perhaps
send it, which may fail. -/
inductive Flushes (send : BufferedChange → Except ε β) (change : BufferedChange) :
    Option BufferedChange × Option (Except ε β) → Prop
  | dropped : Flushes send change (none, none)
  | kept (live : Value) : Flushes send change (some { change with actual := live }, none)
  | failed (live : Value) (error : ε) :
      Flushes send change (some { change with actual := live }, some (.error error))
  | sent {live : Value} {message : β} (stamp : Nat) (stampTick : Tick) :
      send { change with actual := live } = .ok message →
      Flushes send change
        (some { change with actual := live, sent := true, stamp, stampTick }, some (.ok message))

theorem flushes_flushChange : Flushes send change
    (flushChange table world now currentTick interval force send change) := by
  unfold flushChange
  split
  next => exact .dropped
  next =>
    split
    next => exact .dropped
    next live shown =>
      dsimp only
      split
      next same => exact .dropped
      next differs =>
        split
        next before => exact .kept live
        next unsent =>
          split
          next due =>
            split
            next message captured => exact .sent _ _ captured
            next error refused => exact .failed live error
          next early => exact .kept live

/-- What a flush keeps of a change is the change, and what was sent stays so. -/
theorem flushChange_eq_some {left : BufferedChange}
    (kept : (flushChange table world now currentTick interval force send change).1 = some left) :
    left.Alongside change ∧ left.pending = change.pending ∧
      (change.sent = true → left.sent = true) := by
  have flushes : Flushes send change
    (flushChange table world now currentTick interval force send change) := flushes_flushChange
  generalize flushChange table world now currentTick interval force send change = result
    at flushes kept
  cases flushes with
  | dropped => cases kept
  | kept | failed =>
    cases kept
    exact ⟨⟨rfl, rfl, rfl, rfl⟩, rfl, fun before => before⟩
  | sent =>
    cases kept
    exact ⟨⟨rfl, rfl, rfl, rfl⟩, rfl, fun _ => rfl⟩

/-- A change that counts as sent only since a flush was sent by it. -/
theorem flushChange_sent {left : BufferedChange}
    (kept : (flushChange table world now currentTick interval force send change).1 = some left)
    (unsent : change.sent = false) (sent : left.sent = true) :
    ∃ message, (flushChange table world now currentTick interval force send change).2 =
        some (.ok message) ∧
      ∃ live, send { change with actual := live } = .ok message := by
  have flushes : Flushes send change
    (flushChange table world now currentTick interval force send change) := flushes_flushChange
  generalize flushChange table world now currentTick interval force send change = result
    at flushes kept ⊢
  cases flushes with
  | dropped => cases kept
  | kept | failed =>
    cases kept
    exact absurd (sent.symm.trans unsent) Bool.noConfusion
  | sent _ _ captured => exact ⟨_, rfl, _, captured⟩

end ChangeBuffer

end Lockstep
