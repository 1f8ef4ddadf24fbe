import Lockstep.Proofs.Watch.Tidy
import Mathlib.Data.List.Basic

/-! # What a forced flush sends

A forced flush sends each change that is not sent yet and that the world does not show
(`outcomes_flushAll`). The next one sends those again that were refused, and no others
(`outcomes_flushAll_flushAll`), and a flush in a world that shows all changes drops them without
sending (`flush_shown`). All this is said of any host: what a change is offered with is what the world
shows in its place.
-/

namespace Lockstep

variable {W : Type}

/-- What flushes go by: the time, and how long changes wait that are not forced. -/
structure FlushTime where
  now : Nat
  currentTick : ScopeId → Option Tick
  interval : FlushInterval

namespace HandlerTable

variable {table : HandlerTable W} {world : W} {change other offered : BufferedChange} {place : Place}

/-- The field that a change is of, if its handle is one of a field. -/
def placeOf? (table : HandlerTable W) (change : BufferedChange) : Option Place :=
  match table.field change.handle with
  | .ok (id, _) => some ⟨id, change.scope, change.target, change.index⟩
  | .error _ => none

/-- A change as a forced flush sends it, with what the world shows in its place: none if it has been
sent, or the world shows it, or nothing. -/
def offer? (table : HandlerTable W) (world : W) (change : BufferedChange) : Option BufferedChange := do
  let place ← table.placeOf? change
  let live ← table.read? world place
  if live.equal change.pending || change.sent then none else some { change with actual := live }

theorem placeOf?_congr (same : change.Alongside other) : table.placeOf? change = table.placeOf? other := by
  rw [placeOf?, placeOf?, same.handle, same.scope, same.target, same.index]

theorem placeOf?_eq_some (placed : table.placeOf? change = some place) (world : W) :
    ∃ field, table.field change.handle = .ok (place.handler, field) ∧
      table.read? world place = field.get world change.scope change.target change.index := by
  rw [placeOf?] at placed
  split at placed
  next id field known =>
    cases placed
    exact ⟨field, known, read?_eq _ (field_eq_ok known) world⟩
  next => cases placed

/-- A change that belongs to its key is of the field that the key names. -/
theorem placeOf?_of_holds {key : BufferKey} (holds : key.Holds table change) :
    table.placeOf? change = some (key.place change.target) := by
  obtain ⟨⟨field, known, -⟩, sameScope, sameIndex⟩ := holds
  rw [placeOf?, known, BufferKey.place, sameScope, sameIndex]

theorem offer?_eq_some (offers : table.offer? world change = some offered) :
    ∃ place live, table.placeOf? change = some place ∧ table.read? world place = some live ∧
      live.equal change.pending = false ∧ change.sent = false ∧
      offered = { change with actual := live } := by
  obtain ⟨place, placed, offers⟩ := Option.bind_eq_some_iff.mp offers
  obtain ⟨live, shown, offers⟩ := Option.bind_eq_some_iff.mp offers
  split at offers
  next => cases offers
  next fresh =>
    obtain ⟨differs, unsent⟩ := Bool.or_eq_false_iff.mp (Bool.eq_false_iff.mpr fresh)
    cases offers
    exact ⟨place, live, placed, shown, differs, unsent, rfl⟩

theorem placeOf?_offer (offers : table.offer? world change = some offered) :
    table.placeOf? offered = table.placeOf? change := by
  obtain ⟨_, _, _, _, _, _, rfl⟩ := offer?_eq_some offers
  exact placeOf?_congr ⟨rfl, rfl, rfl, rfl⟩

/-- What is on offer stays so until it is sent. -/
theorem offer?_self (offers : table.offer? world change = some offered) :
    table.offer? world offered = some offered := by
  have again := offers
  obtain ⟨place, live, -, -, -, -, rfl⟩ := offer?_eq_some offers
  exact again

/-- What changes are to set in a field. -/
def destined (table : HandlerTable W) (changes : List BufferedChange) (place : Place) : List Value :=
  (changes.filter (table.placeOf? · = some place)).map (·.pending)

theorem offer?_of_sent (sent : change.sent = true) : table.offer? world change = none := by
  refine Option.eq_none_iff_forall_ne_some.mpr fun offered offers => ?_
  obtain ⟨_, _, _, _, _, unsent, _⟩ := offer?_eq_some offers
  cases unsent.symm.trans sent

end HandlerTable

namespace ChangeBuffer

variable {table : HandlerTable W} {buffer : ChangeBuffer} {world : W}
  {change offered left : BufferedChange} {ε ε' β β' : Type} {send : BufferedChange → Except ε β}

/-- Send all changes that are not sent yet, however long they have waited. -/
def flushAll (buffer : ChangeBuffer) (table : HandlerTable W) (world : W) (time : FlushTime)
    (send : BufferedChange → Except ε β) : List (Except ε β) × ChangeBuffer :=
  buffer.flush table world time.now time.currentTick time.interval true send

section FlushChange

variable {now : Nat} {currentTick : ScopeId → Option Tick} {interval : FlushInterval} {force : Bool}

/-- A change on offer is sent, and stays on offer if it is refused. -/
theorem flushChange_offered (offers : table.offer? world change = some offered) :
    flushChange table world now currentTick interval true send change =
      match send offered with
      | .ok message => (some { offered with
          sent := true
          stamp := now
          stampTick := (currentTick change.scope).getD change.stampTick }, some (.ok message))
      | .error error => (some offered, some (.error error)) := by
  obtain ⟨place, live, placed, shown, differs, unsent, rfl⟩ := HandlerTable.offer?_eq_some offers
  obtain ⟨field, known, read⟩ := HandlerTable.placeOf?_eq_some placed world
  have lives := read.symm.trans shown
  rw [flushChange, known]
  cases answer : send { change with actual := live } with
  | ok _ | error _ =>
    simp only [lives, if_neg (Bool.eq_false_iff.mp differs), if_neg (Bool.eq_false_iff.mp unsent),
      Bool.true_or, if_true, answer]

/-- Any other change is not sent, and dropped unless it has been sent before. -/
theorem flushChange_unoffered (unoffered : table.offer? world change = none) :
    (flushChange table world now currentTick interval true send change).2 = none ∧
      ∀ left, (flushChange table world now currentTick interval true send change).1 = some left →
        change.sent = true ∧ left.sent = true := by
  rw [flushChange]
  split
  next => exact ⟨rfl, fun _ kept => by cases kept⟩
  next id field known =>
    have placed : table.placeOf? change = some ⟨id, change.scope, change.target, change.index⟩ := by
      rw [HandlerTable.placeOf?, known]
    obtain ⟨_, known', read⟩ := HandlerTable.placeOf?_eq_some placed world
    cases known.symm.trans known'
    split
    next => exact ⟨rfl, fun _ kept => by cases kept⟩
    next live shown =>
      dsimp only
      split
      next => exact ⟨rfl, fun _ kept => by cases kept⟩
      next differs =>
        split
        next sent => exact ⟨rfl, fun _ kept => by cases kept; exact ⟨sent, sent⟩⟩
        next unsent =>
          rw [HandlerTable.offer?, placed, Option.bind_eq_bind, Option.bind_some, read, shown] at unoffered
          simp [differs, unsent] at unoffered

/-- What is forced is what is on offer. -/
theorem flushChange_forced : (flushChange table world now currentTick interval true send change).2 =
    (table.offer? world change).map send := by
  cases offers : table.offer? world change with
  | none => exact (flushChange_unoffered offers).1
  | some offered =>
    rw [flushChange_offered offers, Option.map_some]
    cases send offered <;> rfl

/-- What a forced flush keeps of a change is on offer again only if it was refused. -/
theorem offer?_flushChange :
    (flushChange table world now currentTick interval true send change).1.bind (table.offer? world) =
      (table.offer? world change).filter fun offered => !(send offered).isOk := by
  cases offers : table.offer? world change with
  | none => exact Option.bind_eq_none_iff.mpr fun left kept =>
      HandlerTable.offer?_of_sent ((flushChange_unoffered offers).2 left kept).2
  | some offered =>
    rw [flushChange_offered offers]
    cases answer : send offered with
    | ok message =>
      rw [Option.bind_some, HandlerTable.offer?_of_sent rfl, Option.filter_some, answer]
      rfl
    | error error =>
      rw [Option.bind_some, HandlerTable.offer?_self offers, Option.filter_some, answer]
      rfl

/-- What a forced flush keeps of a change that was not sent is what was on offer. -/
theorem flushChange_keeps (unsent : change.sent = false)
    (kept : (flushChange table world now currentTick interval true send change).1 = some left) :
    ∃ offered, table.offer? world change = some offered ∧ left.Alongside offered ∧
      left.pending = offered.pending := by
  cases offers : table.offer? world change with
  | none => cases unsent.symm.trans ((flushChange_unoffered offers).2 left kept).1
  | some offered =>
    rw [flushChange_offered offers] at kept
    refine ⟨offered, rfl, ?_⟩
    split at kept
    all_goals
      cases kept
      exact ⟨⟨rfl, rfl, rfl, rfl⟩, rfl⟩

end FlushChange

/-! ## All changes at once -/

section Flush

variable {now : Nat} {currentTick : ScopeId → Option Tick} {interval : FlushInterval} {force : Bool}

theorem changes_flush : (buffer.flush table world now currentTick interval force send).2.changes =
    buffer.changes.filterMap fun change =>
      (flushChange table world now currentTick interval force send change).1 := by
  rw [changes, changes, entries_flush, List.map_filterMap, List.filterMap_map]
  refine List.filterMap_congr fun entry _ => ?_
  rw [Function.comp_apply, Option.map_map]
  exact Option.map_id_apply

theorem outcomes_flush : (buffer.flush table world now currentTick interval force send).1 =
    buffer.changes.filterMap fun change =>
      (flushChange table world now currentTick interval force send change).2 := by
  simp only [flush, changes, List.filterMap_map]
  rfl

/-- The world shows all changes. -/
def Shown (buffer : ChangeBuffer) (table : HandlerTable W) (world : W) : Prop :=
  ∀ change ∈ buffer.changes, ∃ place live, table.placeOf? change = some place ∧
    table.read? world place = some live ∧ live.equal change.pending = true

/-- Changes that the world shows are dropped and not sent. -/
theorem flush_shown (shown : buffer.Shown table world) :
    buffer.flush table world now currentTick interval force send =
      ([], { buffer with entries := [] }) := by
  have dropped : ∀ entry ∈ buffer.entries,
      flushChange table world now currentTick interval force send entry.2 = (none, none) := by
    intro entry member
    obtain ⟨place, live, placed, shows, same⟩ := shown entry.2 (List.mem_map_of_mem member)
    obtain ⟨field, known, read⟩ := HandlerTable.placeOf?_eq_some placed world
    exact flushChange_shown known (read.symm.trans shows) same
  rw [flush]
  simp only [List.filterMap_map]
  congr 2
  · refine List.filterMap_eq_nil_iff.mpr fun entry member => ?_
    rw [Function.comp_apply, dropped entry member]
  · refine List.filterMap_eq_nil_iff.mpr fun entry member => ?_
    rw [Function.comp_apply, dropped entry member, Option.map_none]

/-- What one world shows all of, it shows all of after a flush in another. -/
theorem Shown.flush {next : W} (shown : buffer.Shown table next) :
    (buffer.flush table world now currentTick interval force send).2.Shown table next := by
  intro left member
  rw [changes_flush] at member
  obtain ⟨change, member, kept⟩ := List.mem_filterMap.mp member
  obtain ⟨alongside, pending, -⟩ := flushChange_eq_some kept
  rw [HandlerTable.placeOf?_congr alongside, pending]
  exact shown change member

end Flush

variable {time later : FlushTime} {again : BufferedChange → Except ε' β'}

/-- A forced flush sends what is on offer. -/
theorem outcomes_flushAll : (buffer.flushAll table world time send).1 =
    (buffer.changes.filterMap (table.offer? world)).map send := by
  rw [flushAll, outcomes_flush, List.map_filterMap]
  exact List.filterMap_congr fun change _ => flushChange_forced

/-- What a forced flush leaves on offer is what was refused. -/
theorem offers_flushAll :
    (buffer.flushAll table world time send).2.changes.filterMap (table.offer? world) =
      (buffer.changes.filterMap (table.offer? world)).filter fun change => !(send change).isOk := by
  rw [flushAll, changes_flush, List.filterMap_filterMap, List.filter_filterMap]
  exact List.filterMap_congr fun change _ => offer?_flushChange

/-- Changes that are sent once: a forced flush sends them, the next one sends again what was refused and
nothing else, and a flush in a world that shows them leaves nothing, and sends nothing. -/
structure SentOnce (buffer : ChangeBuffer) (table : HandlerTable W) (world : W)
    (changes : List BufferedChange) : Prop where
  placed {change : BufferedChange} : change ∈ changes → (table.placeOf? change).isSome = true
  first {ε β : Type} (time : FlushTime) (send : BufferedChange → Except ε β) :
    (buffer.flushAll table world time send).1 = changes.map send
  again {ε ε' β β' : Type} (time later : FlushTime) (send : BufferedChange → Except ε β)
    (resend : BufferedChange → Except ε' β') :
    ((buffer.flushAll table world time send).2.flushAll table world later resend).1 =
      (changes.filter fun change => !(send change).isOk).map resend
  silent {ε ε' β β' : Type} (time later : FlushTime) (send : BufferedChange → Except ε β)
    (resend : BufferedChange → Except ε' β') : (∀ change ∈ changes, (send change).isOk = true) →
    ((buffer.flushAll table world time send).2.flushAll table world later resend).1 = []
  settled {ε ε' ε'' β β' β'' : Type} (time later last : FlushTime) (send : BufferedChange → Except ε β)
    (resend : BufferedChange → Except ε' β') (send' : BufferedChange → Except ε'' β'') (force : Bool)
    {next : W} : (∀ change ∈ changes, ∀ place, table.placeOf? change = some place →
      table.read? next place = some change.pending) →
    let once := (buffer.flushAll table world time send).2
    ∀ left ∈ [once, (once.flushAll table world later resend).2],
      left.flush table next last.now last.currentTick last.interval force send' =
        ([], { left with entries := [] })

/-- What shows all that is sent shows all that a forced flush leaves. -/
theorem shown_flushAll {next : W} (unsent : ∀ change ∈ buffer.changes, change.sent = false)
    (exact : ∀ change ∈ buffer.changes, change.pending.isFloatFree = true)
    (shown : ∀ change ∈ buffer.changes.filterMap (table.offer? world), ∀ place,
      table.placeOf? change = some place → table.read? next place = some change.pending) :
    (buffer.flushAll table world time send).2.Shown table next := by
  intro left member
  rw [flushAll, changes_flush] at member
  obtain ⟨change, member, kept⟩ := List.mem_filterMap.mp member
  obtain ⟨offered, offers, alongside, pending⟩ := flushChange_keeps (unsent change member) kept
  have shows := shown offered (List.mem_filterMap.mpr ⟨change, member, offers⟩)
  obtain ⟨place, live, placed, -, -, -, rfl⟩ := HandlerTable.offer?_eq_some offers
  have there := (HandlerTable.placeOf?_offer offers).trans placed
  refine ⟨place, change.pending, (HandlerTable.placeOf?_congr alongside).trans there, shows place there, ?_⟩
  exact pending ▸ (Value.equal_iff (exact change member) _).mpr rfl

/-- What is on offer is sent once, if nothing has been sent yet. -/
theorem sentOnce (unsent : ∀ change ∈ buffer.changes, change.sent = false)
    (exact : ∀ change ∈ buffer.changes, change.pending.isFloatFree = true) :
    buffer.SentOnce table world (buffer.changes.filterMap (table.offer? world)) where
  placed {offered} member := by
    obtain ⟨change, -, offers⟩ := List.mem_filterMap.mp member
    obtain ⟨place, _, placed, -⟩ := HandlerTable.offer?_eq_some offers
    exact Option.isSome_iff_exists.mpr ⟨place, (HandlerTable.placeOf?_offer offers).trans placed⟩
  first time send := outcomes_flushAll
  again time later send resend := by
    rw [outcomes_flushAll, offers_flushAll]
  silent time later send resend accepted := by
    rw [outcomes_flushAll, offers_flushAll, List.filter_eq_nil_iff.mpr, List.map_nil]
    intro change member
    rw [accepted change member]
    exact Bool.false_ne_true
  settled time later last send resend send' force next shown := by
    have shown_once : (buffer.flushAll table world time send).2.Shown table next :=
      shown_flushAll unsent exact shown
    intro once left either
    rcases List.mem_cons.mp either with rfl | either
    · exact flush_shown shown_once
    · obtain rfl := List.mem_singleton.mp either
      exact flush_shown shown_once.flush

namespace Tidy

theorem change?_of_mem (tidy : buffer.Tidy table) {entry : BufferKey × BufferedChange}
    (member : entry ∈ buffer.entries) : buffer.change? entry.1 = some entry.2 :=
  (lookup_eq_some_iff tidy.distinct).mpr member

/-- What is on offer is to be set where its key says. -/
theorem placeOf?_offer (tidy : buffer.Tidy table) {entry : BufferKey × BufferedChange}
    (member : entry ∈ buffer.entries) (offers : table.offer? world entry.2 = some offered) :
    table.placeOf? offered = some (entry.1.place entry.2.target) := by
  have placed := HandlerTable.placeOf?_of_holds (tidy.changes (tidy.change?_of_mem member))
  exact (HandlerTable.placeOf?_offer offers).trans placed

/-- What is on offer for a field is what is on offer of its change. -/
theorem destined_offers (tidy : buffer.Tidy table) (sound : table.registry.Sound) {key : BufferKey}
    {handle : Handle} {target : Value} (sits : key.Sits table handle target) :
    table.destined (buffer.changes.filterMap (table.offer? world)) (key.place target) =
      ((buffer.change? key).bind fun change => (table.offer? world change).map (·.pending)).toList := by
  rw [change?, ← filterMap_ite_key _ tidy.distinct, HandlerTable.destined, ChangeBuffer.changes,
    List.filterMap_map,
    List.filter_filterMap, List.map_filterMap]
  refine List.filterMap_congr fun entry member => ?_
  rw [Function.comp_apply]
  cases offers : table.offer? world entry.2 with
  | none => simp
  | some offered =>
    have placed := tidy.placeOf?_offer member offers
    obtain ⟨own, -, -⟩ := tidy.changes (tidy.change?_of_mem member)
    by_cases here : entry.1 = key
    · rw [here] at own placed
      rw [own.target_eq sound sits] at placed
      simp [placed, here]
    · have apart : entry.1.place entry.2.target ≠ key.place target := fun same =>
        here (own.key_eq sits same)
      simp [placed, here, apart]

/-- Nothing is on offer for what no key names. -/
theorem destined_offers_nowhere (tidy : buffer.Tidy table) {place : Place}
    (nowhere : ∀ key handle target, BufferKey.Sits table handle key target → key.place target ≠ place) :
    table.destined (buffer.changes.filterMap (table.offer? world)) place = [] := by
  refine List.map_eq_nil_iff.mpr (List.filter_eq_nil_iff.mpr fun offered member placed => ?_)
  obtain ⟨change, listed, offers⟩ := List.mem_filterMap.mp member
  obtain ⟨entry, kept, rfl⟩ := List.mem_map.mp listed
  have there := (tidy.placeOf?_offer kept offers).symm.trans (of_decide_eq_true placed)
  obtain ⟨sits, -⟩ := tidy.changes (tidy.change?_of_mem kept)
  exact nowhere entry.1 _ _ sits (Option.some.inj there)

end Tidy

end ChangeBuffer

end Lockstep
