import Lockstep.Proofs.Watch.Tidy

/-! # What the world is held at

While no watch on a field is open, the world shows there what the field is held at. An open watch
remembers that value: as the value it opened on, or, where it put a buffered change back, as the
change's `actual` one. This is an invariant of all that watches do, and what it says of one field is
untouched by what happens to others.
-/

namespace Lockstep

variable {W : Type}

namespace ChangeBuffer

/-- Whether a watch on a field is open that has a buffered change. -/
def takes (buffer : ChangeBuffer) (place : Place) : Bool :=
  buffer.watches.any fun watch => watch.place = place && (buffer.change? watch.key).isSome

end ChangeBuffer

variable {table : HandlerTable W}

/-- What an open watch remembers of a field that is there: the value to go back to. -/
def OpenWatch.Remembers (watch : OpenWatch) (buffer : ChangeBuffer) (value : Option Value) : Prop :=
  match buffer.change? watch.key with
  | some change => value = some change.actual ∧ watch.before = some change.pending
  | none => watch.before = value

/-- Every field has a value that it is held at: the world shows it unless a watch on the field is
open, or the field is exempt, and an open watch remembers it. -/
structure HeldBut (cells : FieldCells table) (exempt : Place → Prop) (held : Place → Option Value)
    (watched : Watched W) : Prop where
  valid : cells.valid watched.world
  tidy : watched.buffer.Tidy table
  agreed {place : Place} : cells.there place → ∃ value, held place = some value ∧
    cells.admits place.handler value
  changes {key : BufferKey} {change : BufferedChange} : watched.buffer.change? key = some change →
    cells.there (key.place change.target) ∧ cells.admits key.handler change.pending
  shows {place : Place} : cells.there place → ¬ exempt place →
    (∀ watch ∈ watched.buffer.watches, watch.place ≠ place) →
    table.read? watched.world place = held place
  remembers {watch : OpenWatch} : watch ∈ watched.buffer.watches → watch.shadowed = false →
    cells.there watch.place →
    watch.Remembers watched.buffer (held watch.place)
  absent {watch : OpenWatch} : watch ∈ watched.buffer.watches → watch.shadowed = false →
    ¬ cells.there watch.place →
    watch.before = none

/-- Every field shows what it is held at unless a watch on it is open. -/
def Held (cells : FieldCells table) (held : Place → Option Value) (watched : Watched W) : Prop :=
  HeldBut cells (fun _ => False) held watched

namespace HeldBut

variable {cells : FieldCells table} {exempt : Place → Prop} {held : Place → Option Value}
  {buffer : ChangeBuffer} {world next : W}
  {key : BufferKey} {handle : Handle} {target : Value}

theorem of_held (kept : Held cells held ⟨buffer, world⟩) :
    HeldBut cells exempt held ⟨buffer, world⟩ :=
  { kept with shows := fun there _ free => kept.shows there (fun impossible => impossible) free }

/-- A field that shows what it is held at need not be exempt. -/
theorem settled {place : Place} (kept : HeldBut cells (· = place) held ⟨buffer, world⟩)
    (shown : cells.there place → table.read? world place = held place) :
    Held cells held ⟨buffer, world⟩ := by
  refine { kept with shows := fun {other} there _ free => ?_ }
  by_cases same : other = place
  · subst same
    exact shown there
  · exact kept.shows there same free

/-- What happens to an exempt field is nobody else's business. -/
theorem move {place : Place} (kept : HeldBut cells (· = place) held ⟨buffer, world⟩)
    (moves : cells.Moves place world next) : HeldBut cells (· = place) held ⟨buffer, next⟩ := by
  refine { kept with valid := moves.valid, shows := fun {other} there apart free => ?_ }
  exact (moves.elsewhere there apart).trans (kept.shows there apart free)

/-- Changing the buffered change of a field that is exempt and not watched. -/
theorem update (kept : HeldBut cells (· = key.place target) held ⟨buffer, world⟩)
    {f : BufferedChange → BufferedChange} (free : ∀ watch ∈ buffer.watches, watch.key ≠ key)
    (same : ∀ change, (f change).Alongside change)
    (admitted : ∀ change, buffer.change? key = some change →
      cells.admits key.handler (f change).pending) :
    HeldBut cells (· = key.place target) held ⟨buffer.update key f, world⟩ := by
  refine { kept with
    tidy := kept.tidy.update same
    changes := fun {other change} found => ?_
    remembers := fun {watch} member seen there => ?_ }
  · obtain ⟨old, before, rfl | ⟨rfl, rfl⟩⟩ := ChangeBuffer.change?_of_update found
    · exact kept.changes before
    · rw [(same old).target]
      exact ⟨(kept.changes before).1, admitted old before⟩
  · have remembered := kept.remembers member seen there
    rw [OpenWatch.Remembers, ChangeBuffer.change?_update_of_ne f (free watch member)]
    exact remembered

/-- Keeping a first change of a field that is exempt and not watched. -/
theorem add (kept : HeldBut cells (· = key.place target) held ⟨buffer, world⟩)
    {change : BufferedChange} (free : ∀ watch ∈ buffer.watches, watch.key ≠ key)
    (fresh : buffer.change? key = none) (holds : key.Holds table change)
    (there : cells.there (key.place change.target))
    (admitted : cells.admits key.handler change.pending) :
    HeldBut cells (· = key.place target) held ⟨buffer.add key change, world⟩ := by
  refine { kept with
    tidy := kept.tidy.add fresh holds
    changes := fun {other found} looked => ?_
    remembers := fun {watch} member seen present => ?_ }
  · rcases ChangeBuffer.change?_of_add fresh looked with ⟨rfl, rfl⟩ | before
    · exact ⟨there, admitted⟩
    · exact kept.changes before
  · have remembered := kept.remembers member seen present
    rw [OpenWatch.Remembers, ChangeBuffer.change?_add_of_ne (free watch member)]
    exact remembered

/-- Open a watch on a field that may be exempt: it is no longer. -/
theorem push (kept : HeldBut cells (· = key.place target) held ⟨buffer, world⟩)
    (before : Option Value) (sits : key.Sits table handle target)
    (fresh : buffer.watches.any (·.key = key) = false → cells.there (key.place target) →
      match buffer.change? key with
      | some change => held (key.place target) = some change.actual ∧ before = some change.pending
      | none => before = held (key.place target))
    (nowhere : buffer.watches.any (·.key = key) = false → ¬ cells.there (key.place target) →
        before = none) :
    Held cells held
        ⟨buffer.opened key handle target before (buffer.watches.any (·.key = key)), world⟩ := by
  refine { kept with
    tidy := kept.tidy.opened sits before
    shows := fun {place} there _ free => ?_
    remembers := fun {watch} member seen there => ?_
    absent := fun {watch} member seen gone => ?_ }
  · obtain ⟨apart, free⟩ := List.forall_mem_cons.mp free
    exact kept.shows there (Ne.symm apart) free
  · rcases List.mem_cons.mp member with rfl | member
    · exact fresh seen there
    · exact kept.remembers member seen there
  · rcases List.mem_cons.mp member with rfl | member
    · exact nowhere seen gone
    · exact kept.absent member seen gone

end HeldBut

namespace Held

variable {cells : FieldCells table} {held : Place → Option Value} {buffer : ChangeBuffer} {world : W}

/-- While nothing is watched and nothing is buffered, fields are held at what the world shows. -/
theorem of_idle (valid : cells.valid world) (unchanged : buffer.entries = [])
    (unwatched : buffer.watches = []) : Held cells (table.read? world) ⟨buffer, world⟩ := by
  have empty {watch : OpenWatch} : watch ∉ buffer.watches := by
    rw [unwatched]
    exact List.not_mem_nil
  have fresh {key : BufferKey} {change : BufferedChange} : buffer.change? key ≠ some change := by
    rw [ChangeBuffer.change?, unchanged]
    intro impossible
    cases impossible
  exact {
    valid
    tidy := .of_empty unchanged unwatched table
    agreed := fun there => cells.holds valid there
    changes := fun found => absurd found fresh
    shows := fun _ _ _ => rfl
    remembers := fun member => absurd member empty
    absent := fun member => absurd member empty }

/-- Take the innermost watch off the stack: its field is exempt until it is settled. -/
theorem pop {watch : OpenWatch} {rest : List OpenWatch} (kept : Held cells held ⟨buffer, world⟩)
    (stack : buffer.watches = watch :: rest) (seen : watch.shadowed = false) :
    HeldBut cells (· = watch.key.place watch.target) held ⟨{ buffer with watches := rest }, world⟩ ∧
      ∀ other ∈ rest, other.key ≠ watch.key := by
  have deeper {other : OpenWatch} (member : other ∈ rest) : other ∈ buffer.watches :=
    stack ▸ List.mem_cons_of_mem _ member
  refine ⟨{ kept with
    tidy := kept.tidy.popped stack
    shows := fun {place} there apart free => ?_
    remembers := fun member => kept.remembers (deeper member)
    absent := fun member => kept.absent (deeper member) }, kept.tidy.alone stack seen⟩
  refine kept.shows there (fun impossible => impossible) fun other member => ?_
  rw [stack] at member
  rcases List.mem_cons.mp member with rfl | member
  · exact Ne.symm apart
  · exact free other member

/-- A shadowed watch goes without a trace. -/
theorem pop_shadowed {watch : OpenWatch} {rest : List OpenWatch} (sound : table.registry.Sound)
    (kept : Held cells held ⟨buffer, world⟩) (stack : buffer.watches = watch :: rest)
    (shadowed : watch.shadowed = true) :
    Held cells held ⟨{ buffer with watches := rest }, world⟩ := by
  have deeper {other : OpenWatch} (member : other ∈ rest) : other ∈ buffer.watches :=
    stack ▸ List.mem_cons_of_mem _ member
  refine { kept with
    tidy := kept.tidy.popped stack
    shows := fun {place} there exempt free => kept.shows there exempt fun other member => ?_
    remembers := fun member => kept.remembers (deeper member)
    absent := fun member => kept.absent (deeper member) }
  rw [stack] at member
  rcases List.mem_cons.mp member with rfl | member
  · obtain ⟨base, member, keys⟩ := kept.tidy.below stack shadowed
    have sits := kept.tidy.watches (deeper member)
    rw [keys] at sits
    have targets := sits.target_eq sound (kept.tidy.watches (stack ▸ List.mem_cons_self))
    have places : base.place = other.place := by
      rw [OpenWatch.place, keys, targets, OpenWatch.place]
    exact places ▸ free base member
  · exact free other member

/-- What settling the innermost watch comes to: nothing under a lower watch on the field, or where there
is no field; else the field is put back to what it is held at, and the value that it showed is pending,
unless that is what was pending, or what the field is held at. -/
inductive Settled (cells : FieldCells table) (held : Place → Option Value) (watch : OpenWatch)
    (buffer : ChangeBuffer) (world : W) : Watched W → Prop
  | nested : watch.shadowed = true → Settled cells held watch buffer world ⟨buffer, world⟩
  | gone : watch.shadowed = false → ¬ cells.there watch.place →
      Settled cells held watch buffer world ⟨buffer, world⟩
  | pending {change : BufferedChange} {next : W} : watch.shadowed = false → cells.there watch.place →
      buffer.change? watch.key = some change →
      table.read? world watch.place = some change.pending → cells.Moves watch.place world next →
      table.read? next watch.place = held watch.place →
      Settled cells held watch buffer world ⟨buffer, next⟩
  | changed {change : BufferedChange} {after : Value} {next : W} : watch.shadowed = false →
      cells.there watch.place → buffer.change? watch.key = some change →
      table.read? world watch.place = some after → cells.admits watch.key.handler after →
      cells.Moves watch.place world next → table.read? next watch.place = held watch.place →
      Settled cells held watch buffer world
        ⟨buffer.update watch.key fun change => { change with pending := after, sent := false }, next⟩
  | unchanged : watch.shadowed = false → cells.there watch.place → buffer.change? watch.key = none →
      table.read? world watch.place = held watch.place →
      Settled cells held watch buffer world ⟨buffer, world⟩
  | edited {change : BufferedChange} {next : W} : watch.shadowed = false → cells.there watch.place →
      buffer.change? watch.key = none → watch.key.Holds table change → change.target = watch.target →
      change.sent = false → table.read? world watch.place = some change.pending →
      cells.admits watch.key.handler change.pending → cells.Moves watch.place world next →
      table.read? next watch.place = held watch.place →
      Settled cells held watch buffer world ⟨buffer.add watch.key change, next⟩

/-- Settling a watch never fails. -/
theorem settle {watch : OpenWatch} {rest : List OpenWatch} (kept : Held cells held ⟨buffer, world⟩)
    (stack : buffer.watches = watch :: rest) (now : Nat) (currentTick : ScopeId → Option Tick) :
    ∃ outcome after, ChangeBuffer.settle table now currentTick watch
      ⟨{ buffer with watches := rest }, world⟩ = .ok outcome after ∧
      Settled cells held watch { buffer with watches := rest } world after := by
  cases seen : watch.shadowed with
  | true => exact ⟨_, _, ChangeBuffer.settle_shadowed seen, .nested seen⟩
  | false =>
    have member : watch ∈ buffer.watches := stack ▸ List.mem_cons_self
    obtain ⟨field, known, encoded⟩ := kept.tidy.watches member
    have handles := HandlerTable.field_eq_ok known
    by_cases there : cells.there watch.place
    · obtain ⟨after, shown, admitted⟩ := cells.holds kept.valid there
      obtain ⟨agreed, value, admits⟩ := kept.agreed there
      have remembered := kept.remembers member seen there
      have left : field.get world watch.key.scope watch.target watch.key.index = some after :=
        (HandlerTable.read?_eq watch.place handles world).symm.trans shown
      obtain ⟨next, written, moves, back⟩ := cells.set kept.valid handles there admits
      cases found : buffer.change? watch.key with
      | some change =>
        rw [OpenWatch.Remembers, found, value] at remembered
        obtain ⟨actual, opened⟩ := remembered
        cases actual
        refine ⟨_, _, ChangeBuffer.settle_changed seen known found opened left written, ?_⟩
        cases same : after.equal change.pending with
        | true =>
          have equal := (Value.equal_iff (cells.floatFree admitted) change.pending).mp same
          exact .pending seen there found (equal ▸ shown) moves (back.trans value.symm)
        | false => exact .changed seen there found shown admitted moves (back.trans value.symm)
      | none =>
        rw [OpenWatch.Remembers, found, value] at remembered
        cases same : after.equal agreed with
        | true =>
          have equal := (Value.equal_iff (cells.floatFree admitted) agreed).mp same
          exact ⟨_, _, ChangeBuffer.settle_unchanged seen known found remembered left same,
            .unchanged seen there found ((equal ▸ shown).trans value.symm)⟩
        | false =>
          exact ⟨_, _, ChangeBuffer.settle_edited seen known found remembered left same written,
            .edited seen there found ⟨⟨field, known, encoded⟩, rfl, rfl⟩ rfl rfl shown admitted moves
              (back.trans value.symm)⟩
    · exact ⟨_, _, ChangeBuffer.settle_unresolved seen known (kept.absent member seen there),
        .gone seen there⟩

theorem Settled.watches {watch : OpenWatch} {after : Watched W}
    (settled : Settled cells held watch buffer world after) :
    after.buffer.watches = buffer.watches := by
  cases settled <;> rfl

/-- Settling a watch is nobody else's business. -/
theorem Settled.elsewhere {watch : OpenWatch} {after : Watched W}
    (settled : Settled cells held watch buffer world after) :
    (∀ place, cells.there place → place ≠ watch.place →
        table.read? after.world place = table.read? world place) ∧
      ∀ key, key ≠ watch.key → after.buffer.change? key = buffer.change? key := by
  cases settled with
  | nested | gone | unchanged => exact ⟨fun _ _ _ => rfl, fun _ _ => rfl⟩
  | pending _ _ _ _ moves => exact ⟨fun _ => moves.elsewhere, fun _ _ => rfl⟩
  | changed _ _ _ _ _ moves =>
    exact ⟨fun _ => moves.elsewhere, fun _ => ChangeBuffer.change?_update_of_ne _⟩
  | edited _ _ _ _ _ _ _ _ moves => exact ⟨fun _ => moves.elsewhere, fun _ => ChangeBuffer.change?_add_of_ne⟩

/-- What a watched field showed is pending once the watch is settled, unless the field is held at it. -/
theorem Settled.pends {watch : OpenWatch} {after : Watched W}
    (settled : Settled cells held watch buffer world after) (seen : watch.shadowed = false)
    (there : cells.there watch.place) : table.read? world watch.place =
      ((after.buffer.change? watch.key).map (·.pending)).or (held watch.place) := by
  cases settled with
  | nested shadowed => cases seen.symm.trans shadowed
  | gone _ gone => exact absurd there gone
  | pending _ _ found shown =>
    rw [shown, found]
    rfl
  | changed _ _ found shown =>
    rw [shown, ChangeBuffer.change?_update_self, found]
    rfl
  | unchanged _ _ fresh shown =>
    rw [shown, fresh]
    rfl
  | edited _ _ fresh _ _ _ shown =>
    rw [shown, ChangeBuffer.change?_add_self fresh]
    rfl

/-- A change that is made or changed has not been sent. -/
theorem Settled.unsent {watch : OpenWatch} {after : Watched W}
    (settled : Settled cells held watch buffer world after)
    (unsent : ∀ key change, buffer.change? key = some change → change.sent = false)
    {key : BufferKey} {change : BufferedChange} (found : after.buffer.change? key = some change) :
    change.sent = false := by
  cases settled with
  | nested | gone | pending | unchanged => exact unsent key change found
  | changed =>
    obtain ⟨old, before, rfl | ⟨-, rfl⟩⟩ := ChangeBuffer.change?_of_update found
    · exact unsent key _ before
    · rfl
  | edited _ _ fresh _ _ new =>
    rcases ChangeBuffer.change?_of_add fresh found with ⟨-, rfl⟩ | before
    · exact new
    · exact unsent key change before

/-- A settled watch makes its field show what it is held at. -/
theorem Settled.keeps {watch : OpenWatch} {rest : List OpenWatch} {after : Watched W}
    (settled : Settled cells held watch { buffer with watches := rest } world after)
    (sound : table.registry.Sound) (kept : Held cells held ⟨buffer, world⟩)
    (stack : buffer.watches = watch :: rest) : Held cells held after := by
  cases settled with
  | nested shadowed => exact kept.pop_shadowed sound stack shadowed
  | gone seen gone => exact (kept.pop stack seen).1.settled fun there => absurd there gone
  | pending seen _ _ _ moves back => exact ((kept.pop stack seen).1.move moves).settled fun _ => back
  | changed seen _ found _ admitted moves back =>
    obtain ⟨popped, free⟩ := kept.pop stack seen
    have updated := popped.update (f := fun change => { change with pending := _, sent := false }) free
      (fun _ => ⟨rfl, rfl, rfl, rfl⟩) fun _ _ => admitted
    exact (updated.move moves).settled fun _ => back
  | unchanged seen _ _ shown => exact (kept.pop stack seen).1.settled fun _ => shown
  | edited seen there fresh holds target _ _ admitted moves back =>
    obtain ⟨popped, free⟩ := kept.pop stack seen
    have added := (popped.move moves).add free fresh holds (target ▸ there) admitted
    exact added.settled fun _ => back

/-- What opening a watch comes to: nothing, a watch that puts nothing back, or one that has put a change
back. -/
inductive Opened (cells : FieldCells table) (buffer : ChangeBuffer) (world : W) : Watched W → Prop
  | refused : Opened cells buffer world ⟨buffer, world⟩
  | plain {key : BufferKey} {handle : Handle} {target : Value} : key.Sits table handle target →
      cells.Knows (key.place target) → (buffer.watches.any (·.key = key) = false → buffer.change? key = none) →
      Opened cells buffer world ⟨buffer.opened key handle target (table.read? world (key.place target))
        (buffer.watches.any (·.key = key)), world⟩
  | pending {key : BufferKey} {handle : Handle} {target : Value} {change : BufferedChange} {live : Value}
      {next : W} : key.Sits table handle target → cells.Knows (key.place target) →
      buffer.watches.any (·.key = key) = false →
      buffer.change? key = some change → cells.there (key.place target) →
      table.read? world (key.place target) = some live → cells.Moves (key.place target) world next →
      table.read? next (key.place target) = some change.pending →
      Opened cells buffer world
        ⟨(buffer.confirm key (some live)).opened key handle target (some change.pending) false, next⟩

/-- No watch on a field that has none is at its place either. -/
theorem apart (kept : Held cells held ⟨buffer, world⟩) {key : BufferKey} {handle : Handle}
    {target : Value} (sits : key.Sits table handle target)
    (unwatched : buffer.watches.any (·.key = key) = false) :
    (∀ watch ∈ buffer.watches, watch.key ≠ key) ∧
      ∀ watch ∈ buffer.watches, watch.place ≠ key.place target := by
  have free : ∀ watch ∈ buffer.watches, watch.key ≠ key := fun watch member same =>
    List.any_eq_false.mp unwatched watch member (decide_eq_true same)
  exact ⟨free, fun watch member same => free watch member ((kept.tidy.watches member).key_eq sits same)⟩

theorem opened (sound : table.registry.Sound) (kept : Held cells held ⟨buffer, world⟩)
    (handle : Handle) (scope : ScopeId) (target : Value) (index : Option Int32)
    (knows : ∀ {id field}, table.field handle = .ok (id, field) →
      cells.Knows ⟨id, scope, target, index⟩) :
    Opened cells buffer world
      (stateAfter (ChangeBuffer.beginWatch table handle scope target index ⟨buffer, world⟩)) := by
  cases keyed : ChangeBuffer.keyOf table handle scope target index with
  | error error =>
    rw [ChangeBuffer.beginWatch_refused keyed]
    exact .refused
  | ok found =>
    obtain ⟨key, field⟩ := found
    obtain ⟨known, encoded, rfl, rfl⟩ := ChangeBuffer.keyOf_eq_ok keyed
    have sits : key.Sits table handle target := ⟨field, known, encoded⟩
    have handles := HandlerTable.field_eq_ok known
    have reads (world : W) : field.get world key.scope target key.index =
        table.read? world (key.place target) := (HandlerTable.read?_eq (key.place target) handles world).symm
    cases plain : if buffer.watches.any (·.key = key) then none else buffer.change? key with
    | none =>
      rw [ChangeBuffer.beginWatch_plain keyed plain, reads]
      refine .plain sits (knows known) fun unwatched => ?_
      rwa [unwatched, if_neg Bool.false_ne_true] at plain
    | some change =>
      cases unwatched : buffer.watches.any (·.key = key) with
      | true =>
        rw [unwatched, if_pos rfl] at plain
        cases plain
      | false =>
        rw [unwatched, if_neg Bool.false_ne_true] at plain
        obtain ⟨there, admitted⟩ := kept.changes plain
        rw [(kept.tidy.changes plain).1.target_eq sound sits] at there
        obtain ⟨live, shown, -⟩ := cells.holds kept.valid there
        obtain ⟨next, written, moves, pending⟩ := cells.set kept.valid handles there admitted
        rw [ChangeBuffer.beginWatch_pending keyed unwatched plain written, reads, reads, shown, pending]
        exact .pending sits (knows known) unwatched plain there shown moves pending

theorem Opened.keeps {after : Watched W} (opened : Opened cells buffer world after)
    (kept : Held cells held ⟨buffer, world⟩) : Held cells held after := by
  cases opened with
  | refused => exact kept
  | plain sits knows fresh =>
    refine (HeldBut.of_held kept).push _ sits (fun unwatched there => ?_) fun _ gone =>
      knows.nowhere kept.valid gone
    rw [fresh unwatched]
    exact kept.shows there (fun impossible => impossible) (kept.apart sits unwatched).2
  | @pending key _ target change live _ sits _ unwatched found there shown moves _ =>
    obtain ⟨free, apart⟩ := kept.apart sits unwatched
    have agreed := (kept.shows there (fun impossible => impossible) apart).symm.trans shown
    have exempted : HeldBut cells (· = key.place target) held ⟨buffer, world⟩ := .of_held kept
    have updated := exempted.update free
      (f := fun change => { change with actual := (some live).getD change.actual })
      (fun _ => ⟨rfl, rfl, rfl, rfl⟩) fun _ found => (kept.changes found).2
    have pushed := (updated.move moves).push (some change.pending) sits (fun _ _ => ?_)
      fun _ gone => absurd there gone
    · rwa [ChangeBuffer.update, unwatched] at pushed
    · rw [ChangeBuffer.change?_update_self, found]
      exact ⟨agreed, rfl⟩

/-- Opening a watch, on whatever field, changes nothing that a field is held at. -/
theorem beginWatch (sound : table.registry.Sound) (kept : Held cells held ⟨buffer, world⟩)
    (handle : Handle) (scope : ScopeId) (target : Value) (index : Option Int32)
    (knows : ∀ {id field}, table.field handle = .ok (id, field) →
      cells.Knows ⟨id, scope, target, index⟩) :
    Held cells held
      (stateAfter (ChangeBuffer.beginWatch table handle scope target index ⟨buffer, world⟩)) :=
  (kept.opened sound handle scope target index knows).keeps kept

/-- What happens to a field under an open watch does not change what it is held at. -/
theorem move {place : Place} {next : W} (kept : Held cells held ⟨buffer, world⟩)
    (watched : ∃ watch ∈ buffer.watches, watch.place = place) (moves : cells.Moves place world next) :
    Held cells held ⟨buffer, next⟩ := by
  refine { kept with valid := moves.valid, shows := fun {other} there exempt free => ?_ }
  have apart : other ≠ place := by
    rintro rfl
    obtain ⟨watch, member, same⟩ := watched
    exact free watch member same
  exact (moves.elsewhere there apart).trans (kept.shows there exempt free)

/-- Closing a watch, or failing to, changes nothing that a field is held at. -/
theorem endWatch (sound : table.registry.Sound) (kept : Held cells held ⟨buffer, world⟩)
    (serial now : Nat) (currentTick : ScopeId → Option Tick) :
    Held cells held
      (stateAfter (ChangeBuffer.endWatch table serial now currentTick ⟨buffer, world⟩)) := by
  refine ChangeBuffer.endWatch_keeps (Held cells held) (fun kept stack => ?_) kept serial
  obtain ⟨outcome, after, settles, settled⟩ := kept.settle stack now currentTick
  rw [settles]
  exact settled.keeps sound kept stack

section Flush

variable {ε β : Type} {now : Nat} {currentTick : ScopeId → Option Tick}
  {interval : FlushInterval} {force : Bool}
  {send : BufferedChange → Except ε β} {key : BufferKey} {change : BufferedChange}

/-- A change that is flushed is dropped if the world shows it, and kept for what the world shows
otherwise. -/
theorem change?_flush (kept : Held cells held ⟨buffer, world⟩)
    (found : buffer.change? key = some change) :
    ∃ live, table.read? world (key.place change.target) = some live ∧
      (((buffer.flush table world now currentTick interval force send).2.change? key = none ∧
        live = change.pending) ∨
        ∃ left, (buffer.flush table world now currentTick interval force send).2.change? key =
          some left ∧
          left.Alongside change ∧ left.actual = live ∧ left.pending = change.pending) := by
  obtain ⟨live, shown, admitted⟩ := cells.holds kept.valid (kept.changes found).1
  refine ⟨live, shown, ?_⟩
  rcases kept.tidy.change?_flush found world now currentTick interval force send with
    ⟨dropped, same⟩ | ⟨other, left, same, shown', -, alongside, sameActual, samePending⟩
  · exact .inl ⟨dropped, (Value.equal_iff (cells.floatFree admitted) _).mp (same live shown)⟩
  · cases shown.symm.trans shown'
    exact .inr ⟨left, same, alongside, sameActual, samePending⟩

/-- A flush takes what the world shows in a watched and changed field for what the field is held at,
and changes nothing else. -/
theorem flush (sound : table.registry.Sound) (kept : Held cells held ⟨buffer, world⟩) :
    Held cells (fun place => if buffer.takes place then table.read? world place else held place)
      ⟨(buffer.flush table world now currentTick interval force send).2, world⟩ := by
  refine {
    valid := kept.valid
    tidy := kept.tidy.flush
    agreed := fun {place} there => ?_
    changes := fun {key left} found => ?_
    shows := fun {place} there exempt free => ?_
    remembers := fun {watch} member seen there => ?_
    absent := kept.absent }
  · by_cases taken : buffer.takes place = true
    · rw [if_pos taken]
      exact cells.holds kept.valid there
    · rw [if_neg taken]
      exact kept.agreed there
  · obtain ⟨change, before, alongside, samePending, -⟩ := kept.tidy.change?_of_flush found
    rw [alongside.target, samePending]
    exact kept.changes before
  · have untaken : ¬ buffer.takes place = true := by
      intro taken
      obtain ⟨watch, member, same⟩ := List.any_eq_true.mp taken
      exact free watch member (of_decide_eq_true (Bool.and_eq_true_iff.mp same).1)
    rw [if_neg untaken]
    exact kept.shows there exempt free
  · have remembered := kept.remembers member seen there
    rw [OpenWatch.Remembers] at remembered ⊢
    cases before : buffer.change? watch.key with
    | none =>
      have untaken : ¬ buffer.takes watch.place = true := by
        intro taken
        obtain ⟨other, listed, same⟩ := List.any_eq_true.mp taken
        obtain ⟨same, changed⟩ := Bool.and_eq_true_iff.mp same
        have keys :=
          (kept.tidy.watches listed).key_eq (kept.tidy.watches member) (of_decide_eq_true same)
        rw [keys, before] at changed
        cases changed
      rw [before] at remembered
      rw [ChangeBuffer.change?_flush kept.tidy.distinct, before, if_neg untaken]
      exact remembered
    | some change =>
      have taken : buffer.takes watch.place = true := by
        refine List.any_eq_true.mpr ⟨watch, member,
          Bool.and_eq_true_iff.mpr ⟨decide_eq_true rfl, ?_⟩⟩
        rw [before]
        rfl
      rw [before] at remembered
      obtain ⟨_, opened⟩ := remembered
      obtain ⟨live, shown, after⟩ := kept.change?_flush before
      rw [(kept.tidy.changes before).1.target_eq sound (kept.tidy.watches member)] at shown
      rw [if_pos taken]
      rcases after with ⟨dropped, same⟩ | ⟨left, same, _, sameActual, samePending⟩
      · rw [dropped]
        exact opened.trans (same ▸ shown.symm)
      · rw [same]
        exact ⟨sameActual ▸ shown, samePending ▸ opened⟩

end Flush

/-- What is set in a field that no watch is open on is what the field is held at from then on. -/
theorem advance [World W] {cells : Cells table} {next : W} {sets : List (Place × Value)}
    (kept : Held cells.fieldCells held ⟨buffer, world⟩) (shows : cells.Shows world next sets) :
    Held cells.fieldCells (fun place => if buffer.watches.any (·.place = place) then held place
      else (sets.reverse.lookup place).or (held place)) ⟨buffer, next⟩ := by
  have watched {place : Place} : buffer.watches.any (·.place = place) = false ↔
      ∀ watch ∈ buffer.watches, watch.place ≠ place := by
    simp
  have shown {place : Place} (there : cells.there place) (free : ∀ watch ∈ buffer.watches,
      watch.place ≠ place) :
      table.read? next place = (sets.reverse.lookup place).or (held place) := by
    rw [shows.reads there, kept.shows there (fun impossible => impossible) free]
  refine { kept with
    valid := shows.valid
    agreed := fun {place} there => ?_
    shows := fun {place} there _ free => ?_
    remembers := fun {watch} member seen there => ?_ }
  · cases open_ : buffer.watches.any (·.place = place) with
    | true => exact kept.agreed there
    | false =>
      rw [if_neg Bool.false_ne_true, ← shown there (watched.mp open_)]
      exact cells.holds shows.valid there
  · rw [watched.mpr free, if_neg Bool.false_ne_true]
    exact shown there free
  · have open_ : buffer.watches.any (·.place = watch.place) = true :=
      List.any_eq_true.mpr ⟨watch, member, decide_eq_true rfl⟩
    rw [open_, if_pos rfl]
    exact kept.remembers member seen there

end Held

end Lockstep
