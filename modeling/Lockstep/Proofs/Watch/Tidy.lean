import Lockstep.Proofs.Schema.Injective
import Lockstep.Proofs.Watch.Settling

/-! # Tidy buffers

A key names a field by the bytes of its target. In a tidy buffer every watch and every change belongs to
the field that its key names, no field has two changes, and of the watches on one field only the lowest
is not shadowed. Whatever is done to a buffer keeps it tidy.
-/

namespace Lockstep

variable {W : Type}

/-- The field that a key names, for a target with the key's bytes. -/
def BufferKey.place (key : BufferKey) (target : Value) : Place :=
  ⟨key.handler, key.scope, target, key.index⟩

def OpenWatch.place (watch : OpenWatch) : Place := watch.key.place watch.target

/-- A handle, a key and a target that belong together. -/
def BufferKey.Sits (table : HandlerTable W) (handle : Handle) (key : BufferKey) (target : Value) :
    Prop :=
  ∃ field, table.field handle = .ok (key.handler, field) ∧
    table.registry.encode field.target target = .ok key.target

namespace BufferKey.Sits

variable {table : HandlerTable W} {handle handle' : Handle} {key key' : BufferKey}
  {target target' : Value}

theorem target_eq (sound : table.registry.Sound) (first : Sits table handle key target)
    (second : Sits table handle' key target') : target = target' := by
  obtain ⟨field, known, encoded⟩ := first
  obtain ⟨field', known', encoded'⟩ := second
  have same := (HandlerTable.field_eq_ok known).symm.trans (HandlerTable.field_eq_ok known')
  cases same
  exact Registry.encode_injective sound encoded encoded'

/-- The field of the handle is the one of the key. -/
theorem handles (sits : Sits table handle key target) {id : HandlerId} {field : FieldHandler W}
    (known : table.field handle = .ok (id, field)) : table.get? key.handler = some (.field field) := by
  obtain ⟨own, known', -⟩ := sits
  cases known.symm.trans known'
  exact HandlerTable.field_eq_ok known

/-- Keys that belong to targets name the same field only if they are the same. -/
theorem key_eq (first : Sits table handle key target) (second : Sits table handle' key' target')
    (same : key.place target = key'.place target') : key = key' := by
  obtain ⟨field, known, encoded⟩ := first
  obtain ⟨field', known', encoded'⟩ := second
  obtain ⟨handler, scope, bytes, index⟩ := key
  obtain ⟨handler', scope', bytes', index'⟩ := key'
  cases same
  have fields := (HandlerTable.field_eq_ok known).symm.trans (HandlerTable.field_eq_ok known')
  cases fields
  rw [encoded] at encoded'
  cases encoded'
  rfl

end BufferKey.Sits

/-- A change that belongs to its key. -/
def BufferKey.Holds (table : HandlerTable W) (key : BufferKey) (change : BufferedChange) : Prop :=
  key.Sits table change.handle change.target ∧ change.scope = key.scope ∧ change.index = key.index

theorem BufferedChange.Alongside.holds {table : HandlerTable W} {key : BufferKey}
    {change other : BufferedChange} (same : change.Alongside other)
    (holds : key.Holds table other) : key.Holds table change := by
  rw [BufferKey.Holds, same.handle, same.scope, same.target, same.index]
  exact holds

/-- Of the watches on one field, the lowest is the only one that is not shadowed. -/
def Stacked : List OpenWatch → Prop
  | [] => True
  | watch :: below => watch.shadowed = below.any (·.key = watch.key) ∧ Stacked below

namespace ChangeBuffer

/-- Watches and changes belong to their fields, and no field has two changes. -/
structure Tidy (table : HandlerTable W) (buffer : ChangeBuffer) : Prop where
  watches {watch : OpenWatch} : watch ∈ buffer.watches →
    watch.key.Sits table watch.handle watch.target
  changes {key : BufferKey} {change : BufferedChange} : buffer.change? key = some change →
    key.Holds table change
  distinct : (buffer.entries.map (·.1)).Nodup
  stacked : Stacked buffer.watches

namespace Tidy

variable {table : HandlerTable W} {buffer : ChangeBuffer} {key : BufferKey}

theorem of_empty (unchanged : buffer.entries = []) (unwatched : buffer.watches = [])
    (table : HandlerTable W) : buffer.Tidy table where
  watches member := by
    rw [unwatched] at member
    cases member
  changes found := by
    rw [ChangeBuffer.change?, unchanged] at found
    cases found
  distinct := by
    rw [unchanged]
    exact List.nodup_nil
  stacked := by
    rw [unwatched]
    trivial

theorem update (tidy : buffer.Tidy table) {f : BufferedChange → BufferedChange}
    (same : ∀ change, (f change).Alongside change) : (buffer.update key f).Tidy table where
  watches := tidy.watches
  changes found := by
    obtain ⟨old, before, rfl | ⟨rfl, rfl⟩⟩ := change?_of_update found
    · exact tidy.changes before
    · exact (same old).holds (tidy.changes before)
  distinct := by
    rw [keys_update]
    exact tidy.distinct
  stacked := tidy.stacked

theorem add (tidy : buffer.Tidy table) {change : BufferedChange}
    (fresh : buffer.change? key = none) (holds : key.Holds table change) :
    (buffer.add key change).Tidy table where
  watches := tidy.watches
  changes found := by
    rcases change?_of_add fresh found with ⟨rfl, rfl⟩ | before
    · exact holds
    · exact tidy.changes before
  distinct := by
    rw [ChangeBuffer.add, List.map_append, List.map_singleton]
    refine List.nodup_append.mpr ⟨tidy.distinct, List.pairwise_singleton _ _,
      fun other listed last only same => ?_⟩
    obtain rfl := List.mem_singleton.mp only
    exact lookup_eq_none_iff.mp fresh (same ▸ listed)
  stacked := tidy.stacked

theorem opened (tidy : buffer.Tidy table) {handle : Handle} {target : Value}
    (sits : key.Sits table handle target) (before : Option Value) :
    (buffer.opened key handle target before (buffer.watches.any (·.key = key))).Tidy table where
  watches member := by
    rcases List.mem_cons.mp member with rfl | member
    · exact sits
    · exact tidy.watches member
  changes := tidy.changes
  distinct := tidy.distinct
  stacked := ⟨rfl, tidy.stacked⟩

/-- Of the watches on a field that are open, the one that is not shadowed is the last to close. -/
theorem alone (tidy : buffer.Tidy table) {watch : OpenWatch} {rest : List OpenWatch}
    (stack : buffer.watches = watch :: rest) (seen : watch.shadowed = false) :
    ∀ other ∈ rest, other.key ≠ watch.key := by
  have stacked := tidy.stacked
  rw [stack] at stacked
  obtain ⟨lowest, -⟩ := stacked
  rw [seen] at lowest
  intro other member same
  exact List.any_eq_false.mp lowest.symm other member (decide_eq_true same)

/-- A shadowed watch has one below it on the same field. -/
theorem below (tidy : buffer.Tidy table) {watch : OpenWatch} {rest : List OpenWatch}
    (stack : buffer.watches = watch :: rest) (shadowed : watch.shadowed = true) :
    ∃ base ∈ rest, base.key = watch.key := by
  have stacked := tidy.stacked
  rw [stack] at stacked
  obtain ⟨base, member, same⟩ := List.any_eq_true.mp (stacked.1.symm.trans shadowed)
  exact ⟨base, member, of_decide_eq_true same⟩

theorem popped (tidy : buffer.Tidy table) {watch : OpenWatch} {rest : List OpenWatch}
    (stack : buffer.watches = watch :: rest) :
    ({ buffer with watches := rest } : ChangeBuffer).Tidy table := by
  have stacked := tidy.stacked
  rw [stack] at stacked
  exact ⟨fun member => tidy.watches (stack ▸ List.mem_cons_of_mem _ member), tidy.changes,
    tidy.distinct, stacked.2⟩

theorem removeScope (tidy : buffer.Tidy table) (scope : ScopeId) :
    (buffer.removeScope scope).Tidy table where
  watches := tidy.watches
  changes found := by
    rw [change?_removeScope] at found
    split at found
    next => cases found
    next => exact tidy.changes found
  distinct := tidy.distinct.sublist (List.filter_sublist.map _)
  stacked := tidy.stacked

section Flush

variable {ε β : Type}

theorem flush (tidy : buffer.Tidy table) {world : W} {now : Nat} {currentTick : ScopeId → Option Tick}
    {interval : FlushInterval} {force : Bool} {send : BufferedChange → Except ε β} :
    (buffer.flush table world now currentTick interval force send).2.Tidy table where
  watches := tidy.watches
  changes found := by
    rw [ChangeBuffer.change?_flush tidy.distinct] at found
    obtain ⟨change, before, kept⟩ := Option.bind_eq_some_iff.mp found
    exact (flushChange_eq_some kept).1.holds (tidy.changes before)
  distinct := distinct_flush tidy.distinct
  stacked := tidy.stacked

/-- A flush drops a change if the world shows it, or nothing in its place, and keeps it for what the
world shows otherwise. -/
theorem change?_flush (tidy : buffer.Tidy table) {change : BufferedChange}
    (found : buffer.change? key = some change) (world : W) (now : Nat)
    (currentTick : ScopeId → Option Tick) (interval : FlushInterval) (force : Bool)
    (send : BufferedChange → Except ε β) :
    ((buffer.flush table world now currentTick interval force send).2.change? key = none ∧
      ∀ live ∈ table.read? world (key.place change.target), live.equal change.pending = true) ∨
    ∃ live left,
      (buffer.flush table world now currentTick interval force send).2.change? key = some left ∧
      table.read? world (key.place change.target) = some live ∧
      live.equal change.pending = false ∧
      left.Alongside change ∧ left.actual = live ∧ left.pending = change.pending := by
  obtain ⟨⟨field, known, _⟩, sameScope, sameIndex⟩ := tidy.changes found
  have read : table.read? world (key.place change.target) =
      field.get world change.scope change.target change.index := by
    rw [sameScope, sameIndex]
    exact HandlerTable.read?_eq (key.place change.target) (HandlerTable.field_eq_ok known) world
  rw [ChangeBuffer.change?_flush tidy.distinct, found, Option.bind_some, read]
  cases shown : field.get world change.scope change.target change.index with
  | none => exact .inl ⟨flushChange_gone known shown, fun _ none => by cases none⟩
  | some live =>
    cases same : live.equal change.pending with
    | true =>
      refine .inl ⟨?_, by rintro _ ⟨⟩; exact same⟩
      rw [flushChange_shown known shown same]
    | false =>
      obtain ⟨left, kept, alongside, sameActual, samePending⟩ := flushChange_kept known shown same
      exact .inr ⟨live, left, kept, rfl, same, alongside, sameActual, samePending⟩

/-- A flush makes no changes: one that it leaves was there before, and is kept for what the world
shows. -/
theorem change?_of_flush (tidy : buffer.Tidy table) {left : BufferedChange} {world : W} {now : Nat}
    {currentTick : ScopeId → Option Tick} {interval : FlushInterval} {force : Bool}
    {send : BufferedChange → Except ε β}
    (found : (buffer.flush table world now currentTick interval force send).2.change? key =
      some left) :
    ∃ change, buffer.change? key = some change ∧ left.Alongside change ∧
      left.pending = change.pending ∧ (change.sent = true → left.sent = true) ∧
      table.read? world (key.place change.target) = some left.actual := by
  have flushed := found
  rw [ChangeBuffer.change?_flush tidy.distinct] at flushed
  obtain ⟨change, before, flushed⟩ := Option.bind_eq_some_iff.mp flushed
  obtain ⟨alongside, pending, stays⟩ := flushChange_eq_some flushed
  refine ⟨change, before, alongside, pending, stays, ?_⟩
  rcases tidy.change?_flush before world now currentTick interval force send with
    ⟨dropped, -⟩ | ⟨live, kept, found', live', -, -, actual, -⟩
  · cases dropped.symm.trans found
  · cases found'.symm.trans found
    rw [actual, live']

end Flush

theorem beginWatch (tidy : buffer.Tidy table) (handle : Handle) (scope : ScopeId) (target : Value)
    (index : Option Int32) (world : W) : (stateAfter
      (ChangeBuffer.beginWatch table handle scope target index ⟨buffer, world⟩)).buffer.Tidy table := by
  have opens : Opens table handle target buffer world
      (stateAfter (ChangeBuffer.beginWatch table handle scope target index ⟨buffer, world⟩)) :=
    opens_beginWatch handle scope target index
  have confirmed (key : BufferKey) (live : Option Value) : (buffer.confirm key live).Tidy table :=
    tidy.update fun _ => ⟨rfl, rfl, rfl, rfl⟩
  generalize stateAfter (ChangeBuffer.beginWatch table handle scope target index ⟨buffer, world⟩) =
    left at opens
  cases opens with
  | refused => exact tidy
  | plain keyed _ =>
    obtain ⟨known, encoded, -⟩ := keyOf_eq_ok keyed
    exact tidy.opened ⟨_, known, encoded⟩ _
  | failed => exact confirmed _ _
  | pending keyed fresh _ _ =>
    obtain ⟨known, encoded, -⟩ := keyOf_eq_ok keyed
    rw [← fresh]
    exact (confirmed _ _).opened ⟨_, known, encoded⟩ _

theorem settle (tidy : buffer.Tidy table) {watch : OpenWatch} {rest : List OpenWatch}
    (stack : buffer.watches = watch :: rest) (now : Nat) (currentTick : ScopeId → Option Tick)
    (world : W) : (stateAfter (ChangeBuffer.settle table now currentTick watch
      ⟨{ buffer with watches := rest }, world⟩)).buffer.Tidy table := by
  have settles : Settles table watch { buffer with watches := rest } world (stateAfter
      (ChangeBuffer.settle table now currentTick watch ⟨{ buffer with watches := rest }, world⟩)) :=
    settles_settle
  have popped := tidy.popped stack
  generalize stateAfter (ChangeBuffer.settle table now currentTick watch
    ⟨{ buffer with watches := rest }, world⟩) = left at settles
  cases settles with
  | passed => exact popped
  | changed =>
    dsimp only
    split
    next edited => exact popped.update fun _ => ⟨rfl, rfl, rfl, rfl⟩
    next => exact popped
  | edited seen known fresh _ _ _ _ kept =>
    rcases kept with rfl | ⟨change, rfl, sameHandle, sameTarget, sameScope, sameIndex⟩
    · exact popped
    · refine popped.add fresh ⟨?_, sameScope, sameIndex⟩
      rw [sameHandle, sameTarget]
      exact tidy.watches (stack ▸ List.mem_cons_self)

theorem endWatch (tidy : buffer.Tidy table) (serial now : Nat)
    (currentTick : ScopeId → Option Tick) (world : W) : (stateAfter
      (ChangeBuffer.endWatch table serial now currentTick ⟨buffer, world⟩)).buffer.Tidy table :=
  endWatch_keeps (fun watched => watched.buffer.Tidy table)
    (fun kept stack => settle kept stack now currentTick _) tidy serial

end Tidy

end ChangeBuffer

end Lockstep
