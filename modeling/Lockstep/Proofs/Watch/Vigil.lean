import Lockstep.Proofs.Peer.Stage
import Lockstep.Proofs.Schema.Registry
import Lockstep.Proofs.Watch.Held

/-! # What the world shows outside of watches

A vigil is a run in which a peer opens and closes watches, edits what it watches, flushes its
changes and simulates ticks, in any order. It keeps a history of what commands set, and of what
flushes took from under open watches. Whenever no watch is open, the world shows in every field the
value that was confirmed last (`Vigil.shows_confirmed`). That is the value that a command set last,
but for two things that get lost: what a command sets in a field under an open watch, and what a
field was held at when a flush takes its live value under an open watch.
-/

namespace Lockstep

variable {W : Type}

/-- What can happen to the value that a field is held at. -/
inductive VigilEvent where
  /-- Commands set fields while watches were open at some places. -/
  | ran (sets : List (Place × Value)) (open_ : List Place)
  /-- A flush took live values from under open watches. -/
  | flushed (taken : List (Place × Value))

/-- A peer, and what has happened to its fields, the latest first. -/
structure Vigil (W : Type) where
  peer : Peer W
  events : List VigilEvent := []

namespace VigilEvent

/-- What a field is held at after an event. -/
def confirm (event : VigilEvent) (before : Place → Option Value) (place : Place) : Option Value :=
  match event with
  | ran sets open_ =>
      if place ∈ open_ then before place else (sets.reverse.lookup place).or (before place)
  | flushed taken => (taken.lookup place).or (before place)

/-- What commands have set in a field after an event. -/
def command (event : VigilEvent) (before : Place → Option Value) (place : Place) : Option Value :=
  match event with
  | ran sets _ => (sets.reverse.lookup place).or (before place)
  | flushed _ => before place

/-- Whether an event leaves a field alone while a watch on it is open. -/
def Spares (event : VigilEvent) (place : Place) : Prop :=
  match event with
  | ran sets open_ => place ∈ open_ → sets.reverse.lookup place = none
  | flushed taken => taken.lookup place = none

instance (event : VigilEvent) (place : Place) : Decidable (event.Spares place) :=
  match event with
  | ran _ _ => inferInstanceAs (Decidable (_ → _))
  | flushed _ => inferInstanceAs (Decidable (_ = _))

end VigilEvent

/-- The values confirmed last: what commands set where no watch was open, or a flush took from under
one. -/
def confirmed (initial : Place → Option Value) (events : List VigilEvent) : Place → Option Value :=
  events.foldr VigilEvent.confirm initial

/-- The values that commands set last. -/
def commanded (initial : Place → Option Value) (events : List VigilEvent) : Place → Option Value :=
  events.foldr VigilEvent.command initial

/-- Nothing has got lost in a field since a command last set it while no watch on it was open: what
commands have set under an open watch was what the field was held at, and what flushes have taken
was what commands had set. -/
def Agrees (initial : Place → Option Value) (place : Place) : List VigilEvent → Prop
  | [] => True
  | .ran sets open_ :: earlier =>
    match sets.reverse.lookup place with
    | some value => place ∈ open_ → confirmed initial earlier place = some value
    | none => Agrees initial place earlier
  | .flushed taken :: earlier =>
    match taken.lookup place with
    | some value => commanded initial earlier place = some value
    | none => Agrees initial place earlier

/-- The value confirmed last is the one that a command set last exactly where nothing has got
lost. -/
theorem confirmed_eq_commanded_iff {initial : Place → Option Value} {events : List VigilEvent}
    {place : Place} :
    confirmed initial events place = commanded initial events place ↔
      Agrees initial place events := by
  induction events with
  | nil => exact iff_of_true rfl True.intro
  | cons event earlier ih =>
    cases event with
    | ran sets open_ =>
      change (if place ∈ open_ then confirmed initial earlier place
        else (sets.reverse.lookup place).or (confirmed initial earlier place)) =
          (sets.reverse.lookup place).or (commanded initial earlier place) ↔ _
      rw [Agrees]
      cases sets.reverse.lookup place with
      | none => rw [Option.none_or, Option.none_or, ite_self, ih]
      | some value =>
        rw [Option.some_or, Option.some_or]
        by_cases watched : place ∈ open_
        · rw [if_pos watched]
          exact ⟨fun same _ => same, fun same => same watched⟩
        · rw [if_neg watched]
          exact iff_of_true rfl fun impossible => absurd impossible watched
    | flushed taken =>
      change (taken.lookup place).or (confirmed initial earlier place) =
        commanded initial earlier place ↔ _
      rw [Agrees]
      cases taken.lookup place with
      | none => rw [Option.none_or, ih]
      | some value => exact eq_comm

/-- Nothing gets lost where no event meddles with an open watch. -/
theorem agrees_of_spared {initial : Place → Option Value} {events : List VigilEvent} {place : Place}
    (spared : ∀ event ∈ events, event.Spares place) : Agrees initial place events := by
  induction events with
  | nil => exact True.intro
  | cons event earlier ih =>
    obtain ⟨spares, rest⟩ := List.forall_mem_cons.mp spared
    cases event with
    | ran sets open_ =>
      rw [Agrees]
      split
      next value set =>
        intro watched
        cases (spares watched).symm.trans set
      next => exact ih rest
    | flushed taken =>
      have none : taken.lookup place = none := spares
      rw [Agrees, none]
      exact ih rest

namespace ChangeBuffer

/-- The places that watches are open at. -/
def openPlaces (buffer : ChangeBuffer) : List Place := buffer.watches.map OpenWatch.place

/-- What a flush takes from under open watches: the live values of fields with buffered changes. -/
def taken (buffer : ChangeBuffer) (table : HandlerTable W) (world : W) : List (Place × Value) :=
  (buffer.watches.filter fun watch => (buffer.change? watch.key).isSome).filterMap fun watch =>
    (table.read? world watch.place).map (watch.place, ·)

theorem mem_openPlaces {buffer : ChangeBuffer} {place : Place} :
    place ∈ buffer.openPlaces ↔ buffer.watches.any (·.place = place) = true := by
  simp [openPlaces]

theorem lookup_taken {buffer : ChangeBuffer} {table : HandlerTable W} {world : W} {place : Place}
    {live : Value} (shown : table.read? world place = some live) :
    (buffer.taken table world).lookup place = if buffer.takes place then some live else none := by
  rw [taken, takes]
  generalize buffer.change? = change?
  induction buffer.watches with
  | nil => rfl
  | cons watch rest ih =>
    rw [List.any_cons]
    cases changed : (change? watch.key).isSome with
    | false =>
      rw [List.filter_cons_of_neg (by simp [changed]), ih, Bool.and_false, Bool.false_or]
    | true =>
      rw [List.filter_cons_of_pos (by simp [changed]), List.filterMap_cons, Bool.and_true]
      by_cases same : watch.place = place
      · simp [same, shown]
      · rw [decide_eq_false same, Bool.false_or]
        cases table.read? world watch.place with
        | none => exact ih
        | some value =>
          rw [Option.map_some, List.lookup_cons, beq_eq_false_iff_ne.mpr (Ne.symm same)]
          exact ih

end ChangeBuffer

namespace Vigil

variable [World W]

/-- What is done during a vigil. -/
inductive Call (W : Type) where
  | beginWatch (handle : Handle) (scope : ScopeId) (target : Value) (index : Option Int32)
  | edit (place : Place) (change : W → W)
  | endWatch (serial now : Nat)
  | flush (now : Nat) (force : Bool)
  | deliver (message : Inbound)
  | advance (scope : ScopeId)

/-- Take a step. Only what is watched is edited, and the commands of a tick set fields. -/
def step (vigil : Vigil W) : Call W → Option (Vigil W)
  | .beginWatch handle scope target index =>
    some { vigil with peer := (vigil.peer.beginWatch handle scope target index).2 }
  | .edit place change =>
    if place ∈ vigil.peer.buffer.openPlaces then
      some { vigil with peer := { vigil.peer with world := change vigil.peer.world } }
    else none
  | .endWatch serial now => some { vigil with peer := (vigil.peer.endWatch serial now).2 }
  | .flush now force => some {
      peer := (vigil.peer.flush now force).2
      events :=
        .flushed (vigil.peer.buffer.taken vigil.peer.table vigil.peer.world) :: vigil.events }
  | .deliver message =>
    some { vigil with peer := { vigil.peer with inbox := vigil.peer.inbox.post (.ok message) } }
  | .advance scope =>
    match vigil.peer.dueTick? scope with
    | none => some { vigil with peer := (vigil.peer.advance scope).2 }
    | some (context, commands, host) =>
      if commands.all vigil.peer.table.isFieldCommand then some {
        peer := (vigil.peer.advance scope).2
        events :=
          .ran (vigil.peer.table.setsOf context commands host) vigil.peer.buffer.openPlaces ::
          vigil.events }
      else none

/-- Take steps one after another. -/
def play : Vigil W → List (Call W) → Option (Vigil W)
  | vigil, [] => some vigil
  | vigil, call :: calls => (vigil.step call).bind (·.play calls)

end Vigil

/-! ## What a step does -/

variable [World W] {table : HandlerTable W} {cells : Cells table} {held : Place → Option Value}

theorem Held.congr {held' : Place → Option Value} {watched : Watched W}
    (kept : Held cells.fieldCells held watched)
    (same : ∀ place, cells.there place → held' place = held place) :
    Held cells.fieldCells held' watched := by
  refine { kept with
    agreed := fun {place} there => ?_
    shows := fun {place} there exempt free =>
      (kept.shows there exempt free).trans (same place there).symm
    remembers := fun {watch} member seen there => ?_ }
  · rw [same place there]
    exact kept.agreed there
  · rw [same watch.place there]
    exact kept.remembers member seen there

/-- A peer whose fields are held at values. -/
structure Stage.Keeps (cells : Cells table) (held : Place → Option Value)
    (stage : Stage W) : Prop where
  table : stage.table = table
  held : Held cells.fieldCells held ⟨stage.buffer, stage.world⟩

namespace Peer

variable {peer : Peer W}

theorem keeps_beginWatch (sound : table.registry.Sound) (keeps : peer.stage.Keeps cells held)
    (handle : Handle) (scope : ScopeId) (target : Value) (index : Option Int32) :
    (peer.beginWatch handle scope target index).2.stage.Keeps cells held := by
  have same : peer.table = table := keeps.table
  rw [beginWatch, stage_watching, same]
  exact ⟨keeps.table, keeps.held.beginWatch sound handle scope target index fun _ => cells.knows _⟩

theorem keeps_endWatch (sound : table.registry.Sound) (keeps : peer.stage.Keeps cells held)
    (serial now : Nat) : (peer.endWatch serial now).2.stage.Keeps cells held := by
  have same : peer.table = table := keeps.table
  rw [endWatch, stage_watching, same]
  exact ⟨keeps.table, keeps.held.endWatch sound serial now _⟩

theorem keeps_flush (sound : table.registry.Sound) (keeps : peer.stage.Keeps cells held)
    (now : Nat) (force : Bool) :
    (peer.flush now force).2.stage.Keeps cells
      ((VigilEvent.flushed (peer.buffer.taken table peer.world)).confirm held) := by
  have same : peer.table = table := keeps.table
  obtain ⟨send, flushed⟩ := peer.stage_flush now force
  rw [flushed, same]
  refine ⟨keeps.table, (keeps.held.flush sound).congr fun place there => ?_⟩
  obtain ⟨live, shown, _⟩ := cells.holds keeps.held.valid there
  have live' : table.read? peer.world place = some live := shown
  change _ = if peer.buffer.takes place then table.read? peer.world place else held place
  rw [VigilEvent.confirm, ChangeBuffer.lookup_taken live']
  cases peer.buffer.takes place with
  | true => rw [if_pos rfl, if_pos rfl, live', Option.some_or]
  | false => rw [if_neg Bool.false_ne_true, if_neg Bool.false_ne_true, Option.none_or]

/-- A tick confirms what its commands set where no watch is open. -/
theorem keeps_advance {scope : ScopeId} {context : CallContext} {commands : List Command}
    {host : HostState W} (keeps : peer.stage.Keeps cells held)
    (due : peer.dueTick? scope = some (context, commands, host))
    (fields : ∀ command ∈ commands, table.isFieldCommand command = true) :
    (peer.advance scope).2.stage.Keeps cells
      ((VigilEvent.ran
        (table.setsOf context commands host) peer.buffer.openPlaces).confirm held) := by
  have same : peer.table = table := keeps.table
  obtain ⟨found, advanced⟩ := stage_advance_due due
  have valid : cells.valid host.world := found ▸ keeps.held.valid
  have ran := cells.shows_commands context valid fields
  obtain ⟨valid', untouched⟩ : cells.valid (World.tickScope context _).world ∧ _ :=
    cells.tick ran.valid
  have ticked := ran.trans (.same valid' untouched)
  rw [List.append_nil, found] at ticked
  rw [advanced, same]
  refine ⟨keeps.table, (keeps.held.advance ticked).congr fun place _ => ?_⟩
  simp only [VigilEvent.confirm, ChangeBuffer.mem_openPlaces]
  rfl

/-- Taking in messages, and nothing else, confirms nothing. -/
theorem keeps_wait {scope : ScopeId} (keeps : peer.stage.Keeps cells held)
    (waiting : peer.dueTick? scope = none) : (peer.advance scope).2.stage.Keeps cells held := by
  rw [stage_advance_waiting waiting]
  exact keeps

end Peer

namespace Vigil

variable {vigil next run : Vigil W} {initial : Place → Option Value}

/-- Whatever is done, fields are held at the values confirmed last. -/
theorem keeps_step (sound : table.registry.Sound) {call : Call W}
    (keeps : vigil.peer.stage.Keeps cells (confirmed initial vigil.events))
    (lawful : ∀ place change, call = .edit place change → cells.Edits place change)
    (stepped : vigil.step call = some next) :
    next.peer.stage.Keeps cells (confirmed initial next.events) := by
  have same : vigil.peer.table = table := keeps.table
  cases call with
  | beginWatch handle scope target index =>
    cases stepped
    exact Peer.keeps_beginWatch sound keeps handle scope target index
  | edit place change =>
    rw [step] at stepped
    split at stepped
    next watched =>
      cases stepped
      obtain ⟨watch, member, there⟩ := List.mem_map.mp watched
      exact ⟨keeps.table, keeps.held.move ⟨watch, member, there⟩
        ((lawful place change rfl).fieldCells _ keeps.held.valid)⟩
    next => cases stepped
  | endWatch serial now =>
    cases stepped
    exact Peer.keeps_endWatch sound keeps serial now
  | flush now force =>
    cases stepped
    rw [same]
    exact Peer.keeps_flush sound keeps now force
  | deliver message =>
    cases stepped
    exact ⟨keeps.table, keeps.held⟩
  | advance scope =>
    rw [step] at stepped
    split at stepped
    next waiting =>
      cases stepped
      exact Peer.keeps_wait keeps waiting
    next context commands host due =>
      split at stepped
      next fields =>
        cases stepped
        rw [same]
        exact Peer.keeps_advance keeps due (List.all_eq_true.mp (same ▸ fields))
      next => cases stepped

theorem keeps_play (sound : table.registry.Sound) {calls : List (Call W)}
    (keeps : vigil.peer.stage.Keeps cells (confirmed initial vigil.events))
    (lawful : ∀ place change, .edit place change ∈ calls → cells.Edits place change)
    (played : vigil.play calls = some run) :
    run.peer.stage.Keeps cells (confirmed initial run.events) := by
  induction calls generalizing vigil with
  | nil =>
    cases played
    exact keeps
  | cons call calls ih =>
    obtain ⟨next, stepped, played⟩ := Option.bind_eq_some_iff.mp played
    have kept :=
      keeps_step sound keeps
        (fun place change same => lawful place change (same ▸ List.mem_cons_self)) stepped
    exact ih kept (fun place change member =>
      lawful place change (List.mem_cons_of_mem _ member)) played

/-- While nothing is watched and nothing is buffered, fields are held at what the world shows. -/
theorem keeps_start {peer : Peer W} {cells : Cells peer.table} (valid : cells.valid peer.world)
    (unchanged : peer.buffer.entries = []) (unwatched : peer.buffer.watches = []) :
    peer.stage.Keeps cells (peer.table.read? peer.world) :=
  ⟨rfl, .of_idle valid unchanged unwatched⟩

/-- Whenever no watch is open, every field shows the value confirmed last; that is the one that a
command set last exactly where nothing has got lost under an open watch. -/
theorem shows_confirmed {declarations : List Declaration} {peer : Peer W} (cells : Cells peer.table)
    (built : Registry.build declarations = .ok peer.table.registry) (valid : cells.valid peer.world)
    (unchanged : peer.buffer.entries = []) (unwatched : peer.buffer.watches = [])
    {calls : List (Call W)}
    (lawful : ∀ place change, .edit place change ∈ calls → cells.Edits place change) {run : Vigil W}
    (played : (Vigil.mk peer []).play calls = some run) (closed : run.peer.buffer.watches = [])
    {place : Place} (there : cells.there place) :
    let initial := peer.table.read? peer.world
    peer.table.read? run.peer.world place = confirmed initial run.events place ∧
      (peer.table.read? run.peer.world place = commanded initial run.events place ↔
          Agrees initial place run.events) := by
  intro initial
  have keeps :=
    keeps_play (Registry.sound_of_build built) (keeps_start valid unchanged unwatched) lawful played
  have unwatched : ∀ watch ∈ run.peer.buffer.watches, watch.place ≠ place := by
    rw [closed]
    intro watch member
    cases member
  have shown : peer.table.read? run.peer.world place = confirmed initial run.events place :=
    keeps.held.shows there (fun impossible => impossible) unwatched
  refine ⟨shown, ?_⟩
  rw [shown]
  exact confirmed_eq_commanded_iff

end Vigil

end Lockstep
