import Lockstep.Proofs.Watch.Setting
import Lockstep.Proofs.Watch.Vigil

/-! # Waiting for a change

A buffered change that has been sent stays buffered until a flush finds that the world shows it.
Between the two watches come and go, and other changes are made and flushed. As long as nobody edits the
field, what is buffered of it is what was sent, and watches leave it with what it showed when they
opened. This is an invariant of all that happens to a buffer and a world (`Awaits`).
-/

namespace Lockstep

variable {W : Type}

/-- A watch at the key of a field is a watch on the field. -/
theorem ChangeBuffer.Tidy.watched {table : HandlerTable W} {buffer : ChangeBuffer}
    (tidy : buffer.Tidy table) (sound : table.registry.Sound) {key : BufferKey} {handle : Handle}
    {target : Value} (sits : key.Sits table handle target) {watch : OpenWatch}
    (member : watch ∈ buffer.watches) (same : watch.key = key) :
    key.place target ∈ buffer.openPlaces := by
  refine List.mem_map.mpr ⟨watch, member, ?_⟩
  have there := tidy.watches member
  rw [same] at there
  rw [OpenWatch.place, same, there.target_eq sound sits]

/-- What is buffered of a field is what is awaited, and has been sent; the world shows there only what it
may; and a watch on the field opened on what the world shows now. -/
structure Awaits (table : HandlerTable W) (key : BufferKey) (target : Value) (awaited : Option Value)
    (shown : Option Value → Prop) (watched : Watched W) : Prop where
  tidy : watched.buffer.Tidy table
  shows : shown (table.read? watched.world (key.place target))
  sent {change : BufferedChange} : watched.buffer.change? key = some change →
    awaited = some change.pending ∧ change.sent = true
  /-- What the field may be put back to. -/
  actual {change : BufferedChange} : watched.buffer.change? key = some change →
    (∃ watch ∈ watched.buffer.watches, watch.key = key) ∨ shown none → shown (some change.actual)
  opened {watch : OpenWatch} : watch ∈ watched.buffer.watches → watch.key = key →
    watch.shadowed = false → watch.before = table.read? watched.world (key.place target)

/-- What there is to know of a field in order to wait for a change of it. -/
structure Awaitable (table : HandlerTable W) (key : BufferKey) (target : Value) (awaited : Option Value)
    (shown : Option Value → Prop) : Prop where
  sound : table.registry.Sound
  cell : table.CellAt (key.place target)
  sits : ∃ handle, key.Sits table handle target
  exact {value : Value} : shown (some value) → value.isFloatFree = true
  awaited {value : Value} : awaited = some value → shown (some value)

section

variable {table : HandlerTable W} {key : BufferKey} {target : Value} {awaited : Option Value}
  {shown : Option Value → Prop}

/-- Whoever sits at another key sits at another place. -/
theorem Awaitable.apart (awaitable : Awaitable table key target awaited shown) {handle : Handle}
    {other : BufferKey} {value : Value} (sits : other.Sits table handle value) (ne : other ≠ key) :
    other.place value ≠ key.place target := by
  obtain ⟨_, own⟩ := awaitable.sits
  exact fun same => ne (sits.key_eq own same)

/-- Whoever sits at the key has the field's target. -/
theorem Awaitable.target_eq (awaitable : Awaitable table key target awaited shown) {handle : Handle}
    {value : Value} (sits : key.Sits table handle value) : value = target := by
  obtain ⟨_, own⟩ := awaitable.sits
  exact sits.target_eq awaitable.sound own

end

namespace Awaits

variable {table : HandlerTable W} {key : BufferKey} {target : Value} {awaited : Option Value}
  {shown : Option Value → Prop} {buffer left : ChangeBuffer} {world next : W}

/-- Of the buffer only the change of the field and the watches count, of the world only the field. -/
theorem congr (awaits : Awaits table key target awaited shown ⟨buffer, world⟩)
    (tidy : left.Tidy table) (change : left.change? key = buffer.change? key)
    (watches : left.watches = buffer.watches)
    (read : table.read? next (key.place target) = table.read? world (key.place target)) :
    Awaits table key target awaited shown ⟨left, next⟩ where
  tidy
  shows := by
    rw [read]
    exact awaits.shows
  sent found := awaits.sent (change ▸ found)
  actual found either := awaits.actual (change ▸ found) (either.imp_left (watches ▸ ·))
  opened member same seen := by
    rw [read]
    exact awaits.opened (watches ▸ member) same seen

/-- The innermost watch leaves the stack. -/
theorem popped (awaits : Awaits table key target awaited shown ⟨buffer, world⟩) {watch : OpenWatch}
    {rest : List OpenWatch} (stack : buffer.watches = watch :: rest) :
    Awaits table key target awaited shown ⟨{ buffer with watches := rest }, world⟩ := by
  have deeper {other : OpenWatch} (member : other ∈ rest) : other ∈ buffer.watches :=
    stack ▸ List.mem_cons_of_mem _ member
  refine { awaits with
    tidy := awaits.tidy.popped stack
    actual := fun found either => awaits.actual found (either.imp_left ?_)
    opened := fun member => awaits.opened (deeper member) }
  rintro ⟨other, member, same⟩
  exact ⟨other, deeper member, same⟩

section Steps

variable (awaitable : Awaitable table key target awaited shown)
  (awaits : Awaits table key target awaited shown ⟨buffer, world⟩)

include awaitable awaits

/-- Another field is set, and what is buffered of the field stays. -/
theorem elsewhere {handle : Handle} {other : BufferKey} {value put : Value} {field : FieldHandler W}
    (sits : other.Sits table handle value) (ne : other ≠ key)
    (known : table.get? other.handler = some (.field field)) (tidy : left.Tidy table)
    (change : left.change? key = buffer.change? key) (watches : left.watches = buffer.watches)
    (written : next = stateAfter (field.set other.scope value other.index put world)) :
    Awaits table key target awaited shown ⟨left, next⟩ := by
  refine awaits.congr tidy change watches ?_
  rw [written]
  exact awaitable.cell.apart (awaitable.apart sits ne) known

omit awaitable in
/-- The field may show what it is taken to be agreed on. -/
theorem shows_actual {change : BufferedChange} (found : buffer.change? key = some change) :
    shown (some ((table.read? world (key.place target)).getD change.actual)) := by
  have shows := awaits.shows
  cases read : table.read? world (key.place target) with
  | none => exact awaits.actual found (.inr (read ▸ shows))
  | some value => exact read ▸ shows

/-- A change that is put back for a watch takes what the world shows for agreed on, and the world shows
it if the host takes it. -/
theorem confirmed {handle : Handle} {other : BufferKey} {value : Value} {field : FieldHandler W}
    {change : BufferedChange}
    (keyed : ChangeBuffer.keyOf table handle other.scope value other.index = .ok (other, field))
    (fresh : buffer.watches.any (·.key = other) = false)
    (found : buffer.change? other = some change)
    (written : next = stateAfter (field.set other.scope value other.index change.pending world)) :
    Awaits table key target awaited shown
        ⟨buffer.confirm other (field.get world other.scope value other.index), next⟩ ∧
      (other = key → ∀ {change : BufferedChange},
        (buffer.confirm other (field.get world other.scope value other.index)).change? key =
          some change → shown (some change.actual)) := by
  obtain ⟨known, encoded, -⟩ := ChangeBuffer.keyOf_eq_ok keyed
  have handles := HandlerTable.field_eq_ok known
  have sits : other.Sits table handle value := ⟨field, known, encoded⟩
  have tidy : (buffer.confirm other (field.get world other.scope value other.index)).Tidy table :=
    awaits.tidy.update fun _ => ⟨rfl, rfl, rfl, rfl⟩
  have free {watch : OpenWatch} (member : watch ∈ buffer.watches) : watch.key ≠ other :=
    fun same => List.any_eq_false.mp fresh watch member (decide_eq_true same)
  by_cases here : other = key
  · subst here
    obtain rfl := awaitable.target_eq sits
    rw [show field.get world other.scope value other.index = table.read? world (other.place value) from
      (HandlerTable.read?_eq (other.place value) handles world).symm] at tidy ⊢
    obtain ⟨pending, sent⟩ := awaits.sent found
    have looked {left : BufferedChange}
        (before : (buffer.confirm other (table.read? world (other.place value))).change? other =
          some left) : left =
            { change with actual := (table.read? world (other.place value)).getD change.actual } := by
      rw [ChangeBuffer.confirm, ChangeBuffer.change?_update_self, found] at before
      exact (Option.some.inj before).symm
    refine ⟨{
      tidy
      shows := written ▸ awaitable.cell.shows_set handles (awaitable.awaited pending) awaits.shows
      sent := fun before => looked before ▸ ⟨pending, sent⟩
      actual := fun before _ => looked before ▸ awaits.shows_actual found
      opened := fun member same => absurd same (free member) }, fun _ _ before => ?_⟩
    exact looked before ▸ awaits.shows_actual found
  · exact ⟨awaits.elsewhere awaitable sits here handles tidy
      (ChangeBuffer.change?_update_of_ne _ (Ne.symm here)) rfl written, fun same => absurd same here⟩

/-- Another watch opens. On the field it opens on what the world shows, unless it is shadowed. -/
theorem pushed {handle : Handle} {other : BufferKey} {value : Value} {field : FieldHandler W}
    {shadowed : Bool} (known : table.field handle = .ok (other.handler, field))
    (sits : other.Sits table handle value)
    (tidy : (buffer.opened other handle value (field.get world other.scope value other.index)
      shadowed).Tidy table)
    (actual : other = key → ∀ {change : BufferedChange}, buffer.change? key = some change →
      shown (some change.actual)) :
    Awaits table key target awaited shown
      ⟨buffer.opened other handle value (field.get world other.scope value other.index) shadowed,
        world⟩ := by
  refine { awaits with tidy, actual := fun found either => ?_, opened := fun member same seen => ?_ }
  · by_cases here : other = key
    · exact actual here found
    · refine awaits.actual found (either.imp_left ?_)
      rintro ⟨watch, member, same⟩
      rcases List.mem_cons.mp member with rfl | member
      · exact absurd same here
      · exact ⟨watch, member, same⟩
  · rcases List.mem_cons.mp member with rfl | member
    · obtain rfl : other = key := same
      obtain rfl := awaitable.target_eq sits
      exact (HandlerTable.read?_eq (other.place value) (HandlerTable.field_eq_ok known) world).symm
    · exact awaits.opened member same seen

theorem beginWatch (handle : Handle) (scope : ScopeId) (value : Value) (index : Option Int32) :
    Awaits table key target awaited shown
      (stateAfter (ChangeBuffer.beginWatch table handle scope value index ⟨buffer, world⟩)) := by
  have tidy := awaits.tidy.beginWatch handle scope value index world
  have opens : ChangeBuffer.Opens table handle value buffer world
      (stateAfter (ChangeBuffer.beginWatch table handle scope value index ⟨buffer, world⟩)) :=
    ChangeBuffer.opens_beginWatch handle scope value index
  generalize stateAfter (ChangeBuffer.beginWatch table handle scope value index ⟨buffer, world⟩) =
    after at tidy opens
  cases opens with
  | refused => exact awaits
  | @plain other field keyed fresh =>
    obtain ⟨known, encoded, -⟩ := ChangeBuffer.keyOf_eq_ok keyed
    refine awaits.pushed awaitable known ⟨field, known, encoded⟩ tidy ?_
    rintro rfl change found
    cases lower : buffer.watches.any (·.key = other) with
    | true =>
      obtain ⟨watch, member, same⟩ := List.any_eq_true.mp lower
      exact awaits.actual found (.inl ⟨watch, member, of_decide_eq_true same⟩)
    | false => cases (fresh lower).symm.trans found
  | failed keyed fresh found written =>
    exact (awaits.confirmed awaitable keyed fresh found written).1
  | @pending other field change next keyed fresh found written =>
    obtain ⟨known, encoded, -⟩ := ChangeBuffer.keyOf_eq_ok keyed
    obtain ⟨confirmed, actual⟩ := awaits.confirmed awaitable keyed fresh found written
    exact confirmed.pushed awaitable known ⟨field, known, encoded⟩ tidy actual

/-- A watch on the field that is not shadowed finds it as it was when it opened. -/
theorem unedited {watch : OpenWatch} {id : HandlerId} {field : FieldHandler W} {before after : Value}
    (member : watch ∈ buffer.watches) (same : watch.key = key) (seen : watch.shadowed = false)
    (known : table.field watch.handle = .ok (id, field)) (opened : watch.before = some before)
    (left : field.get world watch.key.scope watch.target watch.key.index = some after) :
    after.equal before = true := by
  subst same
  have sits := awaits.tidy.watches member
  have shows := awaits.shows
  have agree := awaits.opened member rfl seen
  rw [← awaitable.target_eq sits] at shows agree
  rw [HandlerTable.read?_eq (watch.key.place watch.target) (sits.handles known)] at shows agree
  cases (opened.symm.trans agree).trans left
  exact (Value.equal_iff (awaitable.exact (left ▸ shows)) _).mpr rfl

/-- A watch on the field has seen no edit: settling it puts the field back. -/
theorem settle {watch : OpenWatch} {rest : List OpenWatch} (stack : buffer.watches = watch :: rest)
    (now : Nat) (currentTick : ScopeId → Option Tick) :
    Awaits table key target awaited shown (stateAfter (ChangeBuffer.settle table now currentTick watch
      ⟨{ buffer with watches := rest }, world⟩)) := by
  have tidy := awaits.tidy.settle stack now currentTick world
  have settles : ChangeBuffer.Settles table watch { buffer with watches := rest } world (stateAfter
      (ChangeBuffer.settle table now currentTick watch ⟨{ buffer with watches := rest }, world⟩)) :=
    ChangeBuffer.settles_settle
  generalize stateAfter (ChangeBuffer.settle table now currentTick watch
    ⟨{ buffer with watches := rest }, world⟩) = after at tidy settles
  have popped := awaits.popped stack
  have member : watch ∈ buffer.watches := stack ▸ List.mem_cons_self
  have sits := awaits.tidy.watches member
  cases settles with
  | passed => exact popped
  | @changed id field change before after next seen known found opened left written =>
    have handles := sits.handles known
    by_cases here : watch.key = key
    · rw [awaits.unedited awaitable member here seen known opened left] at tidy ⊢
      have free {other : OpenWatch} (deeper : other ∈ rest) : other.key ≠ key :=
        here ▸ awaits.tidy.alone stack seen other deeper
      subst here
      obtain rfl := awaitable.target_eq sits
      have back := awaits.actual found (.inl ⟨watch, member, rfl⟩)
      exact { popped with
        tidy
        shows := written ▸ awaitable.cell.shows_set handles back awaits.shows
        opened := fun deeper same => absurd same (free deeper) }
    · refine popped.elsewhere awaitable sits here handles tidy ?_ ?_ written
      · split
        · exact ChangeBuffer.change?_update_of_ne _ (Ne.symm here)
        · rfl
      · split
        · rfl
        · rfl
  | @edited id field before after kept next seen known fresh opened left differs written which =>
    have handles := sits.handles known
    by_cases here : watch.key = key
    · have same := awaits.unedited awaitable member here seen known opened left
      exact absurd same (Bool.eq_false_iff.mp differs)
    · rcases which with rfl | ⟨change, rfl, -⟩
      · exact popped.elsewhere awaitable sits here handles tidy rfl rfl written
      · exact popped.elsewhere awaitable sits here handles tidy
          (ChangeBuffer.change?_add_of_ne (Ne.symm here)) rfl written

theorem endWatch (serial now : Nat) (currentTick : ScopeId → Option Tick) :
    Awaits table key target awaited shown
      (stateAfter (ChangeBuffer.endWatch table serial now currentTick ⟨buffer, world⟩)) :=
  ChangeBuffer.endWatch_keeps (Awaits table key target awaited shown)
    (fun kept stack => kept.settle awaitable stack now currentTick) awaits serial

/-- A change of the field is a change of its target. -/
theorem change_target {change : BufferedChange} (found : buffer.change? key = some change) :
    change.target = target := awaitable.target_eq (awaits.tidy.changes found).1

section Flush

variable {ε β : Type} {now : Nat} {currentTick : ScopeId → Option Tick} {interval : FlushInterval}
  {force : Bool} {send : BufferedChange → Except ε β}

theorem flush : Awaits table key target awaited shown
    ⟨(buffer.flush table world now currentTick interval force send).2, world⟩ := by
  refine { awaits with
    tidy := awaits.tidy.flush
    sent := fun found => ?_
    actual := fun found _ => ?_ }
  · obtain ⟨change, before, -, samePending, stays, -⟩ := awaits.tidy.change?_of_flush found
    obtain ⟨pending, sent⟩ := awaits.sent before
    exact ⟨samePending ▸ pending, stays sent⟩
  · obtain ⟨change, before, -, -, -, actual⟩ := awaits.tidy.change?_of_flush found
    rw [← actual, awaits.change_target awaitable before]
    exact awaits.shows

/-- A flush drops the change exactly if the world shows what is awaited, or nothing. -/
theorem dropped_iff : (buffer.flush table world now currentTick interval force send).2.change? key =
      none ↔
    buffer.change? key = none ∨ ∀ live ∈ table.read? world (key.place target), awaited = some live := by
  cases found : buffer.change? key with
  | none =>
    rw [ChangeBuffer.change?_flush awaits.tidy.distinct, found]
    exact iff_of_true rfl (.inl rfl)
  | some change =>
    have flushed := awaits.tidy.change?_flush found world now currentTick interval force send
    rw [awaits.change_target awaitable found] at flushed
    obtain ⟨pending, -⟩ := awaits.sent found
    have exact {live : Value} (read : table.read? world (key.place target) = some live) :
        live.equal change.pending = true ↔ live = change.pending :=
      Value.equal_iff (awaitable.exact (read ▸ awaits.shows)) _
    rcases flushed with ⟨dropped, same⟩ | ⟨live, left, kept, read, differs, -⟩
    · refine iff_of_true dropped (.inr fun live read => ?_)
      rw [pending, (exact read).mp (same live read)]
    · refine iff_of_false (by rw [kept]; exact Option.some_ne_none left) ?_
      rintro (none | same)
      · cases none
      · have equal := Option.some.inj (pending.symm.trans (same live read))
        rw [(exact read).mpr equal.symm] at differs
        cases differs

end Flush

end Steps

/-- A scope goes, with its changes. -/
theorem removeScope (awaits : Awaits table key target awaited shown ⟨buffer, world⟩) (scope : ScopeId) :
    Awaits table key target awaited shown ⟨buffer.removeScope scope, world⟩ := by
  have before {change : BufferedChange}
      (found : (buffer.removeScope scope).change? key = some change) :
      buffer.change? key = some change := by
    rw [ChangeBuffer.change?_removeScope] at found
    split at found
    next => cases found
    next => exact found
  exact { awaits with
    tidy := awaits.tidy.removeScope scope
    sent := fun found => awaits.sent (before found)
    actual := fun found => awaits.actual (before found) }

/-- The world changes, but not the field under an open watch. -/
theorem happens (awaitable : Awaitable table key target awaited shown)
    (awaits : Awaits table key target awaited shown ⟨buffer, world⟩)
    (shows : shown (table.read? next (key.place target)))
    (spared : key.place target ∈ buffer.openPlaces →
      table.read? next (key.place target) = table.read? world (key.place target)) :
    Awaits table key target awaited shown ⟨buffer, next⟩ := by
  refine { awaits with shows, opened := fun {watch} member same seen => ?_ }
  obtain ⟨_, sits⟩ := awaitable.sits
  rw [spared (awaits.tidy.watched awaitable.sound sits member same)]
  exact awaits.opened member same seen

end Awaits

end Lockstep
