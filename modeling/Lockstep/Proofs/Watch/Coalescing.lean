import Lockstep.Proofs.Watch.Flushing
import Lockstep.Proofs.World.Lab

/-! # Many edits, one change

Watches are opened and closed, innermost first, and what is watched is edited, again and again, without
a flush or a command in between. What has been edited last in a field is all that counts: where it
differs from what the field showed at the start, a forced flush sends it, once, and nothing else is
sent (`Drafting.coalesces`). Meanwhile a field shows its last edit while a watch on it is open, and what
it showed at the start while none is; the change of the field, if it has one, is to its last edit.
-/

namespace Lockstep

variable {W : Type}

/-- What watches act on, and what has been edited into fields, the latest first. -/
structure Drafting (W : Type) where
  watched : Watched W
  edits : List (Place × Value) := []

namespace Drafting

/-- What is done while nothing is flushed and no command comes. -/
inductive Call (W : Type) where
  | beginWatch (handle : Handle) (scope : ScopeId) (target : Value) (index : Option Int32)
  | edit (place : Place) (change : W → W)
  | endWatch (now : Nat) (currentTick : ScopeId → Option Tick)

/-- Take a step. Only what is watched is edited, and only the innermost watch is closed. -/
def step (table : HandlerTable W) (drafting : Drafting W) : Call W → Option (Drafting W)
  | .beginWatch handle scope target index => some { drafting with
      watched := stateAfter
        (ChangeBuffer.beginWatch table handle scope target index drafting.watched) }
  | .edit place change =>
    if place ∈ drafting.watched.buffer.openPlaces then
      let world := change drafting.watched.world
      some {
        watched := { drafting.watched with world }
        edits := ((table.read? world place).map (place, ·)).toList ++ drafting.edits }
    else none
  | .endWatch now currentTick =>
    match drafting.watched.buffer.watches with
    | [] => none
    | innermost :: _ => some { drafting with
        watched := stateAfter
          (ChangeBuffer.endWatch table innermost.serial now currentTick drafting.watched) }

/-- A watch is opened on a field by the place that the field is known by. -/
def Call.OpensKnown {table : HandlerTable W} (cells : FieldCells table) : Call W → Prop
  | .beginWatch handle scope target index => ∀ {id field}, table.field handle = .ok (id, field) →
      cells.Knows ⟨id, scope, target, index⟩
  | .edit _ _ | .endWatch _ _ => True

/-- Where every place is a field of its own, any watch is opened so. -/
theorem Call.opensKnown {table : HandlerTable W} {cells : FieldCells table}
    (known : ∀ place, cells.Knows place) (call : Call W) : call.OpensKnown cells := by
  cases call with
  | beginWatch => exact fun _ => known _
  | edit | endWatch => trivial

/-- Take steps one after another. -/
def play (table : HandlerTable W) : Drafting W → List (Call W) → Option (Drafting W)
  | drafting, [] => some drafting
  | drafting, call :: calls => (drafting.step table call).bind (·.play table calls)

/-- What a field was edited to last, or was held at if it was not edited. -/
def draft (drafting : Drafting W) (held : Place → Option Value) (place : Place) : Option Value :=
  (drafting.edits.lookup place).or (held place)

theorem lookup_noted {place other : Place} {shown : Option Value} {edits : List (Place × Value)} :
    ((shown.map (place, ·)).toList ++ edits).lookup other =
      if other = place then shown.or (edits.lookup other) else edits.lookup other := by
  cases shown with
  | none => exact (ite_self _).symm
  | some value =>
    by_cases same : other = place
    · simp [same]
    · simp [same, List.lookup_cons, beq_eq_false_iff_ne.mpr same]

/-- What differs from a default does not depend on whether the default stands in. -/
theorem filter_or_ne {α : Type} [DecidableEq α] (value default : Option α) :
    (value.or default).filter (default ≠ some ·) = value.filter (default ≠ some ·) := by
  cases value with
  | none => cases default <;> simp
  | some value => rfl

end Drafting

/-- Edits are in the world while a watch on their field is open, and in the buffer while none is. -/
structure Drafts {table : HandlerTable W} (cells : FieldCells table) (held : Place → Option Value)
    (drafting : Drafting W) : Prop where
  keeps : Held cells held drafting.watched
  unsent {key : BufferKey} {change : BufferedChange} :
    drafting.watched.buffer.change? key = some change → change.sent = false
  live {watch : OpenWatch} : watch ∈ drafting.watched.buffer.watches → cells.there watch.place →
    table.read? drafting.watched.world watch.place = drafting.draft held watch.place
  kept {key : BufferKey} {handle : Handle} {target : Value} : key.Sits table handle target →
    (∀ watch ∈ drafting.watched.buffer.watches, watch.key ≠ key) → cells.there (key.place target) →
    drafting.draft held (key.place target) =
      ((drafting.watched.buffer.change? key).map (·.pending)).or (held (key.place target))
  knows {watch : OpenWatch} : watch ∈ drafting.watched.buffer.watches → cells.Knows watch.place
  edited {place : Place} {value : Value} : drafting.edits.lookup place = some value →
    cells.there place ∧ ∃ key handle target, BufferKey.Sits table handle key target ∧
      key.place target = place

namespace Drafts

variable {table : HandlerTable W} {cells : FieldCells table} {held : Place → Option Value}
  {drafting next : Drafting W} {buffer : ChangeBuffer} {world : W} {edits : List (Place × Value)}

/-- Nothing has been edited at the start. -/
theorem start (keeps : Held cells held ⟨buffer, world⟩) (unchanged : buffer.entries = [])
    (unwatched : buffer.watches = []) : Drafts cells held ⟨⟨buffer, world⟩, []⟩ := by
  have fresh (key : BufferKey) : buffer.change? key = none := by
    rw [ChangeBuffer.change?, unchanged]
    rfl
  exact {
    keeps
    unsent := fun {key _} found => by cases (fresh key).symm.trans found
    live := fun {watch} member => absurd member (unwatched ▸ List.not_mem_nil)
    kept := fun {key _ _} _ _ _ => by rw [fresh key]; rfl
    knows := fun {watch} member => absurd member (unwatched ▸ List.not_mem_nil)
    edited := fun found => by cases found }

theorem beginWatch (sound : table.registry.Sound) (drafts : Drafts cells held ⟨⟨buffer, world⟩, edits⟩)
    (handle : Handle) (scope : ScopeId) (target : Value) (index : Option Int32)
    (knows : ∀ {id field}, table.field handle = .ok (id, field) →
      cells.Knows ⟨id, scope, target, index⟩) :
    Drafts cells held ⟨stateAfter
      (ChangeBuffer.beginWatch table handle scope target index ⟨buffer, world⟩), edits⟩ := by
  have keeps := drafts.keeps
  have opened := keeps.opened sound handle scope target index knows
  generalize stateAfter (ChangeBuffer.beginWatch table handle scope target index ⟨buffer, world⟩) =
    after at opened
  have kept := opened.keeps keeps
  cases opened with
  | refused => exact drafts
  | @plain key handle target sits known fresh =>
    refine { drafts with
      keeps := kept
      live := fun {watch} member there => ?_
      kept := fun other free there => drafts.kept other (List.forall_mem_cons.mp free).2 there
      knows := fun member => (List.mem_cons.mp member).elim (fun same => same ▸ known) drafts.knows }
    rcases List.mem_cons.mp member with rfl | member
    · cases shadowed : buffer.watches.any (·.key = key) with
      | true =>
        -- The lower watch on the field shows the last edit already.
        obtain ⟨base, below, same⟩ := List.any_eq_true.mp shadowed
        obtain rfl : base.key = key := of_decide_eq_true same
        obtain rfl := (keeps.tidy.watches below).target_eq sound sits
        have edited : table.read? world base.place = _ := drafts.live below there
        exact edited
      | false =>
        obtain ⟨free, apart⟩ := keeps.apart sits shadowed
        have unedited := drafts.kept sits free there
        rw [fresh shadowed] at unedited
        exact (keeps.shows there (fun impossible => impossible) apart).trans unedited.symm
    · exact drafts.live member there
  | @pending key handle target change live next sits known unwatched found there shown moves pending =>
    obtain ⟨free, apart⟩ := keeps.apart sits unwatched
    refine { drafts with
      keeps := kept
      unsent := fun {other left} looked => ?_
      live := fun {watch} member present => ?_
      kept := fun {other _ _} sits free there => ?_
      knows := fun member => (List.mem_cons.mp member).elim (fun same => same ▸ known) drafts.knows }
    · have looked : (buffer.confirm key (some live)).change? other = some left := looked
      rw [ChangeBuffer.confirm] at looked
      obtain ⟨old, before, rfl | ⟨-, rfl⟩⟩ := ChangeBuffer.change?_of_update looked
      · exact drafts.unsent before
      · have fresh : old.sent = false := drafts.unsent before
        exact fresh
    · rcases List.mem_cons.mp member with rfl | member
      · have drafted := drafts.kept sits free there
        rw [found] at drafted
        exact pending.trans drafted.symm
      · exact (moves.elsewhere present (apart watch member)).trans (drafts.live member present)
    · obtain ⟨ne, free⟩ := List.forall_mem_cons.mp free
      have same : (buffer.confirm key (some live)).change? other = buffer.change? other :=
        ChangeBuffer.change?_update_of_ne _ (Ne.symm ne)
      refine (drafts.kept sits free there).trans ?_
      rw [← same]
      rfl

/-- What is edited under a watch is what the field was edited to last. -/
theorem edit (drafts : Drafts cells held ⟨⟨buffer, world⟩, edits⟩) {place : Place} {next : W}
    (watched : place ∈ buffer.openPlaces) (moves : cells.Moves place world next) :
    Drafts cells held ⟨⟨buffer, next⟩,
      ((table.read? next place).map (place, ·)).toList ++ edits⟩ := by
  obtain ⟨watch, member, rfl⟩ := List.mem_map.mp watched
  have elsewhere {other : Place} (apart : other ≠ watch.place) :
      Drafting.draft ⟨⟨buffer, next⟩,
        ((table.read? next watch.place).map (watch.place, ·)).toList ++ edits⟩ held other =
      Drafting.draft ⟨⟨buffer, world⟩, edits⟩ held other := by
    rw [Drafting.draft, Drafting.lookup_noted, if_neg apart]
    rfl
  refine { drafts with
    keeps := drafts.keeps.move ⟨watch, member, rfl⟩ moves
    live := fun {other} listed there => ?_
    kept := fun {key handle target} sits free there => ?_
    edited := fun {other value} found => ?_ }
  · by_cases same : other.place = watch.place
    · obtain ⟨value, shown, -⟩ := cells.holds moves.valid there
      rw [Drafting.draft, Drafting.lookup_noted, if_pos same, ← same, shown]
      rfl
    · exact (moves.elsewhere there same).trans ((drafts.live listed there).trans (elsewhere same).symm)
  · have apart : key.place target ≠ watch.place := fun same =>
      free watch member ((drafts.keeps.tidy.watches member).key_eq sits same.symm)
    exact (elsewhere apart).trans (drafts.kept sits free there)
  · rw [Drafting.lookup_noted] at found
    split at found
    next same =>
      subst same
      by_cases there : cells.there watch.place
      · exact ⟨there, watch.key, watch.handle, watch.target, drafts.keeps.tidy.watches member, rfl⟩
      · rw [(drafts.knows member).nowhere moves.valid there, Option.none_or] at found
        exact drafts.edited found
    next => exact drafts.edited found

/-- A watch that closes leaves the last edit of its field with the buffer, or with the watch below it. -/
theorem settled {watch : OpenWatch} {rest : List OpenWatch} {after : Watched W}
    (sound : table.registry.Sound) (drafts : Drafts cells held ⟨⟨buffer, world⟩, edits⟩)
    (stack : buffer.watches = watch :: rest)
    (settled : Held.Settled cells held watch { buffer with watches := rest } world after) :
    Drafts cells held ⟨after, edits⟩ := by
  have tidy := drafts.keeps.tidy
  have innermost : watch ∈ buffer.watches := stack ▸ List.mem_cons_self
  have deeper {other : OpenWatch} (member : other ∈ rest) : other ∈ buffer.watches :=
    stack ▸ List.mem_cons_of_mem _ member
  have left : after.buffer.watches = rest := settled.watches
  have keeps := settled.keeps sound drafts.keeps stack
  have unsent {key : BufferKey} {change : BufferedChange} :
      after.buffer.change? key = some change → change.sent = false :=
    settled.unsent fun _ _ => drafts.unsent
  have knows {other : OpenWatch} (member : other ∈ after.buffer.watches) : cells.Knows other.place :=
    drafts.knows (deeper (left ▸ member))
  have unwatched {key : BufferKey} (ne : key ≠ watch.key)
      (free : ∀ other ∈ after.buffer.watches, other.key ≠ key) :
      ∀ other ∈ buffer.watches, other.key ≠ key := by
    rw [left] at free
    rw [stack]
    exact List.forall_mem_cons.mpr ⟨ne.symm, free⟩
  cases seen : watch.shadowed with
  | true =>
    cases settled with
    | nested =>
      refine ⟨keeps, unsent, fun member => drafts.live (deeper member), fun sits free => ?_, knows,
        drafts.edited⟩
      obtain ⟨base, member, same⟩ := tidy.below stack seen
      exact drafts.kept sits (unwatched (fun here => free base member (same.trans here.symm)) free)
    | gone visible | pending visible | changed visible | unchanged visible | edited visible =>
      cases visible.symm.trans seen
  | false =>
    obtain ⟨places, keys⟩ := settled.elsewhere
    refine ⟨keeps, unsent, fun {other} member there => ?_, fun {key handle target} sits free there => ?_,
      knows, drafts.edited⟩
    · have member : other ∈ rest := left ▸ member
      have apart : other.place ≠ watch.place := fun same => tidy.alone stack seen other member
        ((tidy.watches (deeper member)).key_eq (tidy.watches innermost) same)
      exact (places other.place there apart).trans (drafts.live (deeper member) there)
    · by_cases here : key = watch.key
      · subst here
        obtain rfl := sits.target_eq sound (tidy.watches innermost)
        exact (drafts.live innermost there).symm.trans (settled.pends seen there)
      · rw [keys key here]
        exact drafts.kept sits (unwatched here free) there

/-- Whatever is done, edits stay where they belong. -/
theorem step (sound : table.registry.Sound) {call : Drafting.Call W}
    (drafts : Drafts cells held drafting) (opens : call.OpensKnown cells)
    (lawful : ∀ place change, call = .edit place change → cells.Edits place change)
    (stepped : drafting.step table call = some next) : Drafts cells held next := by
  obtain ⟨⟨buffer, world⟩, edits⟩ := drafting
  cases call with
  | beginWatch handle scope target index =>
    cases stepped
    exact drafts.beginWatch sound handle scope target index opens
  | edit place change =>
    rw [Drafting.step] at stepped
    split at stepped
    next watched =>
      cases stepped
      exact drafts.edit watched (lawful place change rfl world drafts.keeps.valid)
    next => cases stepped
  | endWatch now currentTick =>
    rw [Drafting.step] at stepped
    split at stepped
    next => cases stepped
    next innermost rest stack =>
      cases stepped
      obtain ⟨outcome, after, settles, settled⟩ := drafts.keeps.settle stack now currentTick
      rw [ChangeBuffer.endWatch_innermost stack rfl, settles]
      exact drafts.settled sound stack settled

theorem play (sound : table.registry.Sound) {calls : List (Drafting.Call W)}
    (drafts : Drafts cells held drafting) (opens : ∀ call ∈ calls, call.OpensKnown cells)
    (lawful : ∀ place change, .edit place change ∈ calls → cells.Edits place change)
    (played : drafting.play table calls = some next) : Drafts cells held next := by
  induction calls generalizing drafting with
  | nil =>
    cases played
    exact drafts
  | cons call calls ih =>
    obtain ⟨middle, stepped, played⟩ := Option.bind_eq_some_iff.mp played
    obtain ⟨first, opens⟩ := List.forall_mem_cons.mp opens
    have kept := drafts.step sound first
      (fun place change same => lawful place change (same ▸ List.mem_cons_self)) stepped
    exact ih kept opens
      (fun place change member => lawful place change (List.mem_cons_of_mem _ member)) played

/-! ## When all watches are closed -/

section Closed

variable (drafts : Drafts cells held ⟨⟨buffer, world⟩, edits⟩) (closed : buffer.watches = [])

include drafts closed

/-- Every field that is there shows what it showed at the start. -/
theorem shows {place : Place} (there : cells.there place) : table.read? world place = held place :=
  drafts.keeps.shows there (fun impossible => impossible) fun _ member =>
    absurd member (closed ▸ List.not_mem_nil)

/-- A change is on offer unless it is to what the field showed at the start. -/
theorem offer?_eq {key : BufferKey} {change : BufferedChange}
    (found : buffer.change? key = some change) :
    (table.offer? world change).map (·.pending) =
      (some change.pending).filter (held (key.place change.target) ≠ some ·) := by
  obtain ⟨there, -⟩ := drafts.keeps.changes found
  obtain ⟨value, shown, admitted⟩ := cells.holds drafts.keeps.valid there
  have placed := HandlerTable.placeOf?_of_holds (drafts.keeps.tidy.changes found)
  rw [HandlerTable.offer?, placed, Option.bind_eq_bind, Option.bind_some, shown, Option.bind_eq_bind,
    Option.bind_some, drafts.unsent found, Bool.or_false, ← drafts.shows closed there, shown]
  have decided : value.equal change.pending = decide (value = change.pending) :=
    Bool.eq_iff_iff.mpr
      ((Value.equal_iff (cells.floatFree admitted) change.pending).trans decide_eq_true_iff.symm)
  rw [decided, Option.filter_some]
  by_cases same : value = change.pending
  · simp [same]
  · simp [same]

/-- The last edit of a field is in its change, unless it is to what the field showed at the start. -/
theorem drafted (sound : table.registry.Sound) {key : BufferKey} {handle : Handle} {target : Value}
    (sits : key.Sits table handle target) :
    (edits.lookup (key.place target)).or (held (key.place target)) =
      ((buffer.change? key).map (·.pending)).or (held (key.place target)) := by
  by_cases there : cells.there (key.place target)
  · exact drafts.kept sits (fun _ member => absurd member (closed ▸ List.not_mem_nil)) there
  · -- Where there is no such field, it has neither edits nor a change.
    have unedited : edits.lookup (key.place target) = none :=
      Option.eq_none_iff_forall_ne_some.mpr fun value found => there (drafts.edited found).1
    have unchanged : buffer.change? key = none :=
      Option.eq_none_iff_forall_ne_some.mpr fun change found => there (by
        rw [← (drafts.keeps.tidy.changes found).1.target_eq sound sits]
        exact (drafts.keeps.changes found).1)
    rw [unedited, unchanged]
    rfl

/-- What is on offer is the last edit of each field in which it differs from what the field showed at
the start. -/
theorem destined_eq (sound : table.registry.Sound) (place : Place) :
    table.destined (buffer.changes.filterMap (table.offer? world)) place =
      ((edits.lookup place).filter (held place ≠ some ·)).toList := by
  have tidy := drafts.keeps.tidy
  by_cases named : ∃ key handle target, BufferKey.Sits table handle key target ∧ key.place target = place
  · obtain ⟨key, handle, target, sits, rfl⟩ := named
    rw [tidy.destined_offers sound sits, ← Drafting.filter_or_ne, drafts.drafted closed sound sits,
      Drafting.filter_or_ne]
    cases found : buffer.change? key with
    | none => rfl
    | some change =>
      obtain rfl := (tidy.changes found).1.target_eq sound sits
      exact congrArg Option.toList (drafts.offer?_eq closed found)
  · have unedited : edits.lookup place = none :=
      Option.eq_none_iff_forall_ne_some.mpr fun value found => named (drafts.edited found).2
    rw [unedited, tidy.destined_offers_nowhere fun key handle target sits there =>
      named ⟨key, handle, target, sits, there⟩]
    rfl

end Closed

/-- All fields show what they showed at the start, and their last edits are sent. -/
theorem outcome {start : W} {run : Drafting W} (drafts : Drafts cells (table.read? start) run)
    (closed : run.watched.buffer.watches = []) (sound : table.registry.Sound) (valid : cells.valid start) :
    (∀ place, table.read? run.watched.world place = table.read? start place) ∧
      ∃ changes, run.watched.buffer.SentOnce table run.watched.world changes ∧
        ∀ place, table.destined changes place =
          ((run.edits.lookup place).filter (table.read? start place ≠ some ·)).toList := by
  obtain ⟨⟨buffer, world⟩, edits⟩ := run
  have kept {change : BufferedChange} (member : change ∈ buffer.changes) :
      ∃ key, buffer.change? key = some change := by
    obtain ⟨entry, listed, rfl⟩ := List.mem_map.mp member
    exact ⟨entry.1, drafts.keeps.tidy.change?_of_mem listed⟩
  refine ⟨fun place => ?_, _, ChangeBuffer.sentOnce (fun change member => ?_) fun change member => ?_,
    fun place => drafts.destined_eq closed sound place⟩
  · by_cases there : cells.there (cells.canonical place)
    · calc
        table.read? world place = table.read? world (cells.canonical place) :=
          cells.alike place drafts.keeps.valid
        _ = table.read? start (cells.canonical place) := drafts.shows closed there
        _ = table.read? start place := (cells.alike place valid).symm
    · exact (cells.nowhere drafts.keeps.valid there).trans (cells.nowhere valid there).symm
  · obtain ⟨key, found⟩ := kept member
    exact drafts.unsent found
  · obtain ⟨key, found⟩ := kept member
    exact cells.floatFree (drafts.keeps.changes found).2

end Drafts

namespace Drafting

/-- However often fields are edited under however many watches: once all of them are closed, every field
shows what it showed at the start, and what is sent, once, is the last edit of each field in which it
differs from that. A field that goes by several places is watched by the one that it is known by; where
every place is a field of its own, any place may be watched. -/
theorem coalesces {declarations : List Declaration} {table : HandlerTable W} (cells : FieldCells table)
    (built : Registry.build declarations = .ok table.registry) {watched : Watched W}
    (valid : cells.valid watched.world) (unchanged : watched.buffer.entries = [])
    (unwatched : watched.buffer.watches = []) {calls : List (Call W)}
    (opens : ∀ call ∈ calls, call.OpensKnown cells)
    (lawful : ∀ place change, .edit place change ∈ calls → cells.Edits place change)
    {run : Drafting W} (played : (Drafting.mk watched []).play table calls = some run)
    (closed : run.watched.buffer.watches = []) :
    let initial := table.read? watched.world
    (∀ place, table.read? run.watched.world place = initial place) ∧
      ∃ changes, run.watched.buffer.SentOnce table run.watched.world changes ∧
        ∀ place, table.destined changes place =
          ((run.edits.lookup place).filter (initial place ≠ some ·)).toList := by
  intro initial
  have sound := Registry.sound_of_build built
  have start : Drafts cells initial ⟨watched, []⟩ :=
    .start (.of_idle valid unchanged unwatched) unchanged unwatched
  exact (start.play sound opens lawful played).outcome closed sound valid

/-- The level of the second target. -/
def secondPlace : Place := { levelPlace with target := .scalar (.i32 2) }

def setLevel (place : Place) (value : Int32) : Lab → Lab :=
  Lab.setCell (Lab.cellOf UInt32.toNat place (.scalar (.i32 value)))

/-- One level is edited under nested watches, another in between, and then back to what it was. -/
def draftedCalls : List (Call Lab) := [
  .beginWatch 0 .global (.scalar (.i32 1)) none, .edit levelPlace (setLevel levelPlace 5),
  .beginWatch 0 .global (.scalar (.i32 1)) none, .edit levelPlace (setLevel levelPlace 6),
  .beginWatch 0 .global (.scalar (.i32 2)) none, .edit secondPlace (setLevel secondPlace 4),
  .endWatch 0 fun _ => none, .endWatch 0 fun _ => none, .endWatch 0 fun _ => none,
  .beginWatch 0 .global (.scalar (.i32 2)) none, .edit secondPlace (setLevel secondPlace 3),
  .endWatch 0 fun _ => none]

def draftedRun : Drafting Lab :=
  ((Drafting.mk ⟨{}, {}⟩ []).play levelTable draftedCalls).get (by decide +kernel)

/-- The first level is sent as it was edited last, and the second not at all. -/
theorem level_coalesces :
    levelTable.read? draftedRun.watched.world levelPlace = some (.scalar (.i32 3)) ∧
      ∃ changes, draftedRun.watched.buffer.SentOnce levelTable draftedRun.watched.world changes ∧
        levelTable.destined changes levelPlace = [.scalar (.i32 6)] ∧
        levelTable.destined changes secondPlace = [] := by
  have built : Registry.build [] = .ok levelTable.registry := by rfl
  have played : (Drafting.mk ⟨{}, {}⟩ []).play levelTable draftedCalls = some draftedRun :=
    (Option.some_get _).symm
  have closed : draftedRun.watched.buffer.watches = [] := List.isEmpty_iff.mp (by decide +kernel)
  have exact : (Lab.asCells levelTable_isPlain).fieldCells.valid {} := by
    intro cell member
    cases member
  have lawful (place : Place) (change : Lab → Lab) (member : .edit place change ∈ draftedCalls) :
      (Lab.asCells levelTable_isPlain).fieldCells.Edits place change := by
    simp only [draftedCalls, List.mem_cons, reduceCtorEq, Call.edit.injEq, false_or, or_false,
      List.not_mem_nil] at member
    rcases member with ⟨rfl, rfl⟩ | ⟨rfl, rfl⟩ | ⟨rfl, rfl⟩ | ⟨rfl, rfl⟩
    all_goals exact (Lab.edits_setCell levelTable_isPlain rfl).fieldCells
  have opens : ∀ call ∈ draftedCalls, call.OpensKnown (Lab.asCells levelTable_isPlain).fieldCells :=
    fun call _ => call.opensKnown (Lab.asCells levelTable_isPlain).knows
  obtain ⟨shows, changes, once, last⟩ :=
    coalesces (Lab.asCells levelTable_isPlain).fieldCells built exact rfl rfl opens lawful played closed
  exact ⟨(shows levelPlace).trans (by decide +kernel), changes, once,
    (last levelPlace).trans (by decide +kernel), (last secondPlace).trans (by decide +kernel)⟩

end Drafting

end Lockstep
