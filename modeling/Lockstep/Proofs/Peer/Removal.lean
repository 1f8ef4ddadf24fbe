import Lockstep.Proofs.Drift.Ledger
import Lockstep.Proofs.Peer.Moves
import Lockstep.Proofs.Watch.Return

/-! # Scopes that come and go

A scope that is taken away leaves no trace in its peer, and nothing else changes; when it comes back it
starts as in a peer that never knew it (`Peer.Reachable.leaves_no_trace`). What is kept of a scope lies
in many places, each with keys of its own. So what carries this is that whatever a peer can come to
keep of a scope is filed under this scope: a change in the buffer by its key (`ChangeBuffer.Tidy`), and
an opinion by the scope and tick that it is on (`DriftArbiter.Keeps`).
-/

namespace Lockstep

/-! ## What an arbiter has been asked -/

namespace DriftArbiter

variable {arbiter : DriftArbiter} {known : DriftOpinion → Prop}

theorem Keeps.clear (keeps : arbiter.Keeps known) (cleared : ScopeId) :
    (arbiter.clear cleared).Keeps known := by
  intro scope
  by_cases same : scope = cleared
  · rw [same, verdicts_clear_self]
    intro tick reference impossible
    cases impossible
  · rw [verdicts_clear_of_ne arbiter same]
    exact keeps scope

/-- Whatever an arbiter is asked, it keeps opinions under their own scopes and ticks. -/
theorem Keeps.after (keeps : arbiter.Keeps fun _ => True) (calls : List ArbiterCall) :
    (arbiter.after calls).Keeps fun _ => True := by
  induction calls generalizing arbiter with
  | nil => exact keeps
  | cons call calls ih =>
    cases call with
    | submit peer opinion => exact ih (keeps.weigh trivial peer)
    | clear scope => exact ih (keeps.clear scope)

/-- What an arbiter may come to by being asked. -/
def ComesTo (arbiter later : DriftArbiter) : Prop := ∃ calls, later = arbiter.after calls

namespace ComesTo

variable {first second third : DriftArbiter}

theorem refl (arbiter : DriftArbiter) : arbiter.ComesTo arbiter := ⟨[], rfl⟩

theorem of_eq (same : second = first) : first.ComesTo second := same ▸ refl first

theorem trans (left : first.ComesTo second) (right : second.ComesTo third) : first.ComesTo third := by
  obtain ⟨calls, rfl⟩ := left
  obtain ⟨more, rfl⟩ := right
  exact ⟨calls ++ more, List.foldl_append.symm⟩

end ComesTo

end DriftArbiter

namespace Peer

variable {W : Type}

theorem arbiter_report (peer : Peer W) (divergence : Divergence) :
    (peer.report divergence).arbiter = peer.arbiter := by
  unfold report
  split
  next => rfl
  next => rfl

theorem arbiter_submit (peer : Peer W) (author : PeerId) (opinion : DriftOpinion) :
    (peer.submit author opinion).arbiter = (peer.arbiter.submit author opinion).2 := by
  unfold submit
  dsimp only
  split
  next => exact arbiter_report _ _
  next => rfl

theorem asks_submit (peer : Peer W) (author : PeerId) (opinion : DriftOpinion) :
    peer.arbiter.ComesTo (peer.submit author opinion).arbiter :=
  ⟨[.submit author opinion], peer.arbiter_submit author opinion⟩

theorem asks_receive (peer : Peer W) (message : Inbound) :
    peer.arbiter.ComesTo (peer.receive message).arbiter := by
  cases message with
  | command arrived => exact .refl _
  | tickLimit limit => exact .refl _
  | opinion author bytes =>
    rw [receive]
    split
    next => exact peer.asks_submit author _
    next => exact .refl _
  | diverged divergence => exact .of_eq (peer.arbiter_report divergence)

theorem asks_pump (peer : Peer W) : peer.arbiter.ComesTo peer.pump.2.arbiter := by
  have each (messages : List Inbound) (peer : Peer W) :
      peer.arbiter.ComesTo (messages.foldl receive peer).arbiter := by
    induction messages generalizing peer with
    | nil => exact .refl _
    | cons message messages ih => exact (peer.asks_receive message).trans (ih _)
  exact each peer.inbox.messages { peer with inbox := { peer.inbox with messages := [] } }

/-- What a peer keeps is filed: its changes under the keys that they belong to, and its opinions by an
arbiter that has come about by being asked. -/
structure Filed (peer : Peer W) : Prop where
  tidy : peer.buffer.Tidy peer.table
  asked : (DriftArbiter.new peer.config.driftHistory).ComesTo peer.arbiter

namespace Filed

variable {peer : Peer W}

theorem keeps (filed : peer.Filed) : peer.arbiter.Keeps fun _ => True := by
  obtain ⟨calls, same⟩ := filed.asked
  rw [same]
  exact (DriftArbiter.keeps_new _).after calls

theorem history (filed : peer.Filed) : peer.arbiter.history = max peer.config.driftHistory 1 := by
  obtain ⟨calls, same⟩ := filed.asked
  rw [same]
  exact DriftArbiter.history_after _ calls

theorem of_create {config : SyncConfig} {table : HandlerTable W} {world : W}
    (created : create config table world = .ok peer) : peer.Filed := by
  obtain ⟨-, rfl⟩ := @create_eq_ok W ⟨config, table, world, []⟩ peer created
  exact ⟨.of_empty rfl rfl _, .refl _⟩

end Filed

/-! ### Moves -/

variable [World W]

theorem asks_runTick (peer : Peer W) (scope : ScopeId) (state : ScopeState) :
    peer.arbiter.ComesTo (peer.runTick scope state).2.arbiter := by
  unfold runTick
  dsimp only
  split
  next opinion _ =>
    unfold publish
    cases opinion.encode with
    | ok bytes => exact asks_submit _ _ _
    | error error => exact asks_submit _ _ _
  next => exact .refl _

theorem Works.asks {peer last : Peer W} {records : List TickRecord} (works : Works peer records last) :
    peer.arbiter.ComesTo last.arbiter := by
  induction works with
  | rest peer => exact .refl _
  | @pump peer _ _ _ ih => exact peer.asks_pump.trans ih
  | @tick peer _ scope state _ _ _ _ ih =>
    exact peer.asks_pump.trans ((peer.pump.2.asks_runTick scope state).trans ih)

/-- Every move asks the arbiter, or clears a scope, or lets it be. -/
theorem asks_move {peer last : Peer W} (ends : PeerMove.Ends peer last) :
    peer.arbiter.ComesTo last.arbiter := by
  cases ends with
  | errand errand => exact .of_eq (congrArg Alarms.arbiter (peer.alarms_errand errand))
  | works works => exact works.asks
  | heeded _ same => exact .of_eq same
  | cleared scope => exact ⟨[.clear scope], rfl⟩
  | @removed scope => exact ⟨[.clear scope], rfl⟩

/-! ## What a peer keeps -/

section Goes

variable {may : Peer W → W → Prop} {peer now last : Peer W}

theorem Goes.config (goes : peer.Goes may last) : last.config = peer.config := by
  induction goes with
  | rest => rfl
  | beginWatch _ _ _ _ _ ih => exact ih
  | endWatch _ _ _ ih => exact ih
  | @flush now time force _ ih =>
    obtain ⟨send, flushed⟩ := now.stage_flush time force
    have config : (now.flush time force).2.config = now.config := congrArg Stage.config flushed
    exact config.trans ih
  | removeScope _ removed _ ih => exact (congrArg Stage.config (stage_removeScope removed)).trans ih
  | happens _ same _ ih => exact (congrArg Stage.config same).trans ih

theorem Goes.pump (goes : peer.Goes (fun _ _ => True) now) : peer.Goes (fun _ _ => True) now.pump.2 := by
  have pumped := now.stage_pump
  have world : now.pump.2.world = now.world := congrArg Stage.world pumped
  refine goes.happens ?_ trivial
  rw [pumped, world]
  rfl

/-- A peer goes on while it takes in messages and simulates ticks. -/
theorem Goes.works {records : List TickRecord} (goes : peer.Goes (fun _ _ => True) now)
    (works : Works now records last) : peer.Goes (fun _ _ => True) last := by
  induction works with
  | rest => exact goes
  | pump _ ih => exact ih goes.pump
  | @tick now _ scope state _ _ _ _ ih =>
    have ticked := now.pump.2.stage_runTick scope state
    have world : (now.pump.2.runTick scope state).2.world = _ := congrArg Stage.world ticked
    refine ih (goes.pump.happens ?_ trivial)
    rw [recordTick, world]
    exact ticked

/-- A peer goes on with its errands. -/
theorem Goes.errand (goes : peer.Goes (fun _ _ => True) now) (errand : PeerErrand W) :
    peer.Goes (fun _ _ => True) (errand.run now) := by
  cases errand with
  | deliver message => exact goes.happens rfl trivial
  | handOver stays => exact goes.happens rfl trivial
  | raiseTickLimit tick => exact goes.happens rfl trivial
  | addScope scope start =>
    rw [PeerErrand.run, Action.run_addScope, addScope]
    split
    next => exact goes
    next => exact goes.happens rfl trivial
  | withScope scope body =>
    rw [PeerErrand.run, withScope]
    cases now.scopes.get? scope with
    | none => exact goes
    | some state => exact goes.happens rfl trivial
  | edit change => exact goes.happens rfl trivial
  | setId id => exact goes.happens rfl trivial
  | pointAt ambient => exact goes.happens rfl trivial
  | capture time handle scope request =>
    obtain ⟨outbox, throttle, captured⟩ := now.marks_capture time handle scope request
    rw [PeerErrand.run, captured]
    exact goes.happens rfl trivial
  | beginWatch handle scope target index => exact goes.beginWatch handle scope target index
  | endWatch serial time => exact goes.endWatch serial time
  | flush time force => exact goes.flush time force
  | startJournal scope =>
    rw [PeerErrand.run, startJournal]
    cases now.scopes.get? scope with
    | none => exact goes
    | some state => exact goes.happens rfl trivial
  | takeJournal scope => exact goes.happens rfl trivial
  | replay bytes =>
    obtain ⟨world, scopes, replayed⟩ := now.marks_replay bytes
    rw [PeerErrand.run, replayed]
    exact goes.happens rfl trivial

/-- A peer goes on with every move. -/
theorem goes_move (ends : PeerMove.Ends peer last) : peer.Goes (fun _ _ => True) last := by
  cases ends with
  | errand errand => exact Goes.rest.errand errand
  | works works => exact Goes.rest.works works
  | heeded same =>
    have world : last.world = peer.world := congrArg Stage.world same
    refine Goes.rest.happens ?_ trivial
    rw [same, world]
    rfl
  | cleared => exact Goes.rest.happens rfl trivial
  | removed removed => exact Goes.rest.removeScope removed trivial

end Goes

theorem Filed.move {peer last : Peer W} (filed : peer.Filed) {move : PeerMove W}
    (moved : move.run peer = some last) : last.Filed := by
  have ends := PeerMove.ends moved
  have goes := goes_move ends
  obtain ⟨table, tidy⟩ := goes.tidy filed.tidy
  refine ⟨table ▸ tidy, ?_⟩
  rw [goes.config]
  exact filed.asked.trans (asks_move ends)

theorem Filed.play {peer last : Peer W} (filed : peer.Filed) {moves : List (PeerMove W)}
    (played : peer.play moves = some last) : last.Filed := by
  induction moves generalizing peer with
  | nil =>
    cases played
    exact filed
  | cons move moves ih =>
    rw [Peer.play, List.foldlM_cons] at played
    obtain ⟨next, moved, played⟩ := Option.bind_eq_some_iff.mp played
    exact ih (filed.move moved) played

theorem Reachable.filed {peer : Peer W} (reachable : peer.Reachable) : peer.Filed := by
  obtain ⟨config, table, world, start, moves, created, played⟩ := reachable
  exact (Filed.of_create created).play played

end Peer

/-! ## What is left of a scope -/

/-- Nothing is kept of a scope, neither in its own place nor in the places of others. -/
structure DriftArbiter.HasForgotten (scope : ScopeId) (arbiter : DriftArbiter) : Prop where
  own : arbiter.scopes.get? scope = none
  others {other : ScopeId} {tick : Tick} {reference : DriftOpinion} :
    (arbiter.verdicts other).references.get? tick = some reference → reference.scope ≠ scope

theorem DriftArbiter.Keeps.forgets {arbiter : DriftArbiter} {known : DriftOpinion → Prop}
    (keeps : arbiter.Keeps known) (scope : ScopeId) : (arbiter.clear scope).HasForgotten scope where
  own := SortedMap.get?_erase_self _ _
  others {other tick reference} found := by
    by_cases same : other = scope
    · rw [same, verdicts_clear_self] at found
      cases found
    · rw [verdicts_clear_of_ne arbiter same] at found
      exact (keeps other tick reference found).2.1 ▸ same

namespace DriftLedger

/-- None of the tables holds anything of a scope. -/
structure HasForgotten (scope : ScopeId) (ledger : DriftLedger) : Prop where
  references {key : ScopeId × Tick} {reference : DriftOpinion} :
    ledger.references.get? key = some reference → key.1 ≠ scope ∧ reference.scope ≠ scope
  horizons : ledger.horizons.get? scope = none
  diverged {named : ScopeId × PeerId} : named ∈ ledger.diverged → named.1 ≠ scope

/-- The tables hold the same of all scopes but one. -/
structure SameBut (scope : ScopeId) (before after : DriftLedger) : Prop where
  history : after.history = before.history
  references {key : ScopeId × Tick} : key.1 ≠ scope →
    after.references.get? key = before.references.get? key
  horizons {other : ScopeId} : other ≠ scope → after.horizons.get? other = before.horizons.get? other
  diverged : after.diverged.filter (·.1 != scope) = before.diverged.filter (·.1 != scope)

theorem Mirrors.forgets {ledger : DriftLedger} {arbiter : DriftArbiter} {known : DriftOpinion → Prop}
    (mirrors : ledger.Mirrors arbiter) (keeps : arbiter.Keeps known) (scope : ScopeId) :
    (ledger.clear scope).HasForgotten scope where
  references {key reference} found := by
    rw [DriftLedger.clear, SortedMap.get?_filter, Option.filter_eq_some_iff] at found
    obtain ⟨found, apart⟩ := found
    have apart : key.1 ≠ scope := bne_iff_ne.mp apart
    have kept : (arbiter.verdicts key.1).references.get? key.2 = some reference := by
      rw [← mirrors.scopes]
      exact (ledger.get?_referencesOf key.1 key.2).trans found
    exact ⟨apart, (keeps key.1 key.2 reference kept).2.1 ▸ apart⟩
  horizons := SortedMap.get?_erase_self _ _
  diverged listed := bne_iff_ne.mp (List.mem_filter.mp listed).2

theorem sameBut_clear (ledger : DriftLedger) (scope : ScopeId) :
    ledger.SameBut scope (ledger.clear scope) where
  history := rfl
  references {key} apart := by
    rw [clear, SortedMap.get?_filter]
    cases ledger.references.get? key with
    | none => rfl
    | some reference => simp [Option.filter_some, apart]
  horizons apart := SortedMap.get?_erase_of_ne _ apart
  diverged := by simp [clear, List.filter_filter]

end DriftLedger

namespace Peer

variable {W : Type}

/-- Nothing is kept of what was changed or parted in a scope. -/
structure HasForgotten (scope : ScopeId) (peer : Peer W) : Prop where
  buffer {key : BufferKey} {change : BufferedChange} : (key, change) ∈ peer.buffer.entries →
    key.scope ≠ scope ∧ change.scope ≠ scope
  pending {divergence : Divergence} : divergence ∈ peer.divergences → divergence.scope ≠ scope
  reported {divergence : Divergence} : divergence ∈ peer.reported → divergence.scope ≠ scope
  arbiter : peer.arbiter.HasForgotten scope

/-- All scopes but one are as they were, with everything that is kept of them, and so is all that does
not belong to a scope, apart from the world. -/
structure SameBut (scope : ScopeId) (before after : Peer W) : Prop where
  /-- With its tick, its stream, its queue, its samples and its journal. -/
  scopes {other : ScopeId} : other ≠ scope → after.scopes.get? other = before.scopes.get? other
  buffer : after.buffer.entries.filter (·.1.scope != scope) =
    before.buffer.entries.filter (·.1.scope != scope)
  pending : after.divergences.filter (·.scope != scope) = before.divergences.filter (·.scope != scope)
  reported : after.reported.filter (·.scope != scope) = before.reported.filter (·.scope != scope)
  arbiter {other : ScopeId} : other ≠ scope → after.arbiter.verdicts other = before.arbiter.verdicts other
  rest : after = { before with
    scopes := after.scopes
    buffer := { before.buffer with entries := after.buffer.entries }
    divergences := after.divergences
    reported := after.reported
    arbiter := { before.arbiter with scopes := after.arbiter.scopes }
    world := after.world }

theorem SameBut.trans {scope : ScopeId} {before middle after : Peer W} (first : before.SameBut scope middle)
    (second : middle.SameBut scope after) : before.SameBut scope after where
  scopes apart := (second.scopes apart).trans (first.scopes apart)
  buffer := second.buffer.trans first.buffer
  pending := second.pending.trans first.pending
  reported := second.reported.trans first.reported
  arbiter apart := (second.arbiter apart).trans (first.arbiter apart)
  rest := by
    have rest := second.rest
    rw [first.rest] at rest
    exact rest

/-- A scope is about to simulate a tick as its first one, as in any other peer with the same settings that
did not know it. -/
structure Begins (scope : ScopeId) (start : Tick) (peer : Peer W) : Prop where
  bare : ∃ state, peer.scopes.get? scope = some state ∧ state.next = start ∧
    state.stream = .ofScope peer.config.seed scope ∧ state.queue = .empty ∧
    state.drift = .new peer.config.driftSampleCapacity peer.config.driftExchangeInterval ∧
    state.drift.samples = [] ∧ state.journal = none
  likeNew (other : Peer W) : other.config = peer.config → other.scopes.contains scope = false →
    ((Action.addScope scope start).run other).2.scopes.get? scope = peer.scopes.get? scope

variable {peer : Peer W} {scope : ScopeId}

/-! ### Coming -/

theorem begins_addScope (unknown : peer.scopes.contains scope = false) (start : Tick) :
    ∃ after, (Action.addScope scope start).run peer = (.ok (), after) ∧ after.Begins scope start ∧
      after = { peer with scopes := after.scopes } ∧ peer.SameBut scope after := by
  have added (peer : Peer W) (unknown : peer.scopes.contains scope = false) :
      (Action.addScope scope start).run peer = (.ok (), { peer with
        scopes := peer.scopes.insert scope (startScope peer.config scope start) }) := by
    rw [Action.run_addScope, addScope, if_neg (Bool.eq_false_iff.mp unknown)]
    rfl
  refine ⟨_, added peer unknown, ⟨?_, ?_⟩, rfl, ?_⟩
  · exact ⟨_, SortedMap.get?_insert_self _ _ _, rfl, rfl, rfl, rfl, rfl, rfl⟩
  · intro other same unknown
    rw [added other unknown, same]
    dsimp only
    rw [SortedMap.get?_insert_self, SortedMap.get?_insert_self]
  · exact ⟨SortedMap.get?_insert_of_ne _ _, rfl, rfl, rfl, fun _ => rfl, rfl⟩

theorem run_addScope_of_known (known : peer.scopes.contains scope = true) (start : Tick) :
    (Action.addScope scope start).run peer = (.error (.duplicateScope scope), peer) := by
  rw [Action.run_addScope, addScope, if_pos known]
  rfl

/-! ### Going -/

variable [World W]

theorem Filed.forgets (filed : peer.Filed) (scope : ScopeId) : (peer.without scope).HasForgotten scope where
  buffer {key change} listed := by
    obtain ⟨listed, apart⟩ := List.mem_filter.mp listed
    have apart : key.scope ≠ scope := bne_iff_ne.mp apart
    have found : peer.buffer.change? key = some change :=
      (lookup_eq_some_iff filed.tidy.distinct).mpr listed
    exact ⟨apart, (filed.tidy.changes found).2.1 ▸ apart⟩
  pending listed := bne_iff_ne.mp (List.mem_filter.mp listed).2
  reported listed := bne_iff_ne.mp (List.mem_filter.mp listed).2
  arbiter := filed.keeps.forgets scope

theorem sameBut_without (peer : Peer W) (scope : ScopeId) : peer.SameBut scope (peer.without scope) where
  scopes apart := SortedMap.get?_erase_of_ne _ apart
  buffer := by simp [without, ChangeBuffer.removeScope, List.filter_filter]
  pending := by simp [without, clearDrift, List.filter_filter]
  reported := by simp [without, clearDrift, List.filter_filter]
  arbiter apart := DriftArbiter.verdicts_clear_of_ne peer.arbiter apart
  rest := rfl

/-- A scope is gone from a peer, and only this scope. -/
structure Gone (scope : ScopeId) (before after : Peer W) : Prop where
  unknown : after.scopes.get? scope = none
  forgotten : after.HasForgotten scope
  same : before.SameBut scope after
  world : after.world = World.scopeRemoved scope before.world
  /-- An arbiter may as well hold what it remembers in tables that all scopes share. -/
  mirrored : ∃ ledger : DriftLedger, ledger.Mirrors before.arbiter
  cleared (ledger : DriftLedger) : ledger.Mirrors before.arbiter →
    (ledger.clear scope).Mirrors after.arbiter ∧ (ledger.clear scope).HasForgotten scope ∧
      ledger.SameBut scope (ledger.clear scope)

/-- A scope is back in a peer as a new one, and nothing but this scope has changed. -/
structure Back (scope : ScopeId) (start : Tick) (before after : Peer W) : Prop where
  begins : after.Begins scope start
  forgotten : after.HasForgotten scope
  same : before.SameBut scope after
  /-- Opinions on the scope are weighed as by an arbiter that has not heard of anything. -/
  judged (calls : List ArbiterCall) : after.arbiter.answersAbout scope calls =
    (DriftArbiter.new after.config.driftHistory).answers (calls.filter (·.scope = scope))

theorem Filed.gone (filed : peer.Filed) (scope : ScopeId) : peer.Gone scope (peer.without scope) where
  unknown := SortedMap.get?_erase_self _ _
  forgotten := filed.forgets scope
  same := peer.sameBut_without scope
  world := rfl
  mirrored := by
    obtain ⟨calls, same⟩ := filed.asked
    exact ⟨_, same ▸ (DriftLedger.mirrors_new _).after calls⟩
  cleared ledger mirrors :=
    ⟨mirrors.clear scope, mirrors.forgets filed.keeps scope, ledger.sameBut_clear scope⟩

theorem Filed.back (filed : peer.Filed) (scope : ScopeId) (start : Tick) :
    ∃ again, (Action.addScope scope start).run (peer.without scope) = (.ok (), again) ∧
      peer.Back scope start again ∧ again.world = World.scopeRemoved scope peer.world := by
  have unknown : (peer.without scope).scopes.contains scope = false := by
    rw [SortedMap.contains, (filed.gone scope).unknown]
    rfl
  obtain ⟨again, added, begins, rest, same⟩ := begins_addScope unknown start
  have forgotten := filed.forgets scope
  refine ⟨again, added, ⟨begins, ?_, (peer.sameBut_without scope).trans same, fun calls => ?_⟩, ?_⟩
  · rw [rest]
    exact ⟨forgotten.buffer, forgotten.pending, forgotten.reported, forgotten.arbiter⟩
  · rw [rest]
    exact DriftArbiter.answersAbout_eq filed.history (peer.arbiter.verdicts_clear_self scope) calls
  · rw [rest]
    rfl

/-- Whatever has happened to a peer, a scope that it knows goes without a trace and comes back as a new
one, and all other scopes stay as they are throughout. To take away a scope that it does not know, or to
add one that it knows, changes nothing. -/
theorem Reachable.leaves_no_trace (reachable : peer.Reachable) (scope : ScopeId) :
    (peer.scopes.contains scope = true →
      (∃ after, (Action.removeScope scope).run peer = (.ok (), after) ∧ peer.Gone scope after ∧
        ∀ start, ∃ again, (Action.addScope scope start).run after = (.ok (), again) ∧
          peer.Back scope start again ∧ again.world = after.world) ∧
      ∀ start, (Action.addScope scope start).run peer = (.error (.duplicateScope scope), peer)) ∧
    (peer.scopes.contains scope = false →
      (Action.removeScope scope).run peer = (.error (.unknownScope scope), peer) ∧
      ∀ start, ∃ after, (Action.addScope scope start).run peer = (.ok (), after) ∧
        after.Begins scope start ∧ peer.SameBut scope after ∧ after.world = peer.world) := by
  have filed := reachable.filed
  refine ⟨fun known => ⟨?_, run_addScope_of_known known⟩, fun unknown => ⟨?_, fun start => ?_⟩⟩
  · exact ⟨peer.without scope, Action.run_removeScope_of_known known, filed.gone scope, filed.back scope⟩
  · exact Action.run_removeScope_of_unknown unknown
  · obtain ⟨after, added, begins, rest, same⟩ := begins_addScope unknown start
    refine ⟨after, added, begins, same, ?_⟩
    rw [rest]

end Peer

/-- The bytes of an opinion with one sample of a tick of the first map. -/
def mapOpinion (value : UInt64) : Bytes :=
  (DriftOpinion.encode ⟨.map 1, 5, [⟨5, value⟩]⟩).toOption.getD []

/-- Edit the level of a scope under a watch. -/
def editLevelMoves (scope : ScopeId) (serial : Nat) : List (PeerMove Lab) := [
  .quiet (.beginWatch 0 scope (.scalar (.i32 1)) none),
  .quiet (.edit (Lab.setCell (Lab.cellOf UInt32.toNat { levelPlace with scope } (.scalar (.i32 5))))),
  .quiet (.endWatch serial 0)]

/-- A map is recorded, has a command to wait for and simulates a tick; two opinions on it part, a third
peer parts in the global scope, and the level is edited in both. -/
def mapMoves : List (PeerMove Lab) := [
  .quiet (.addScope (.map 1) 2), .quiet (.startJournal (.map 1)),
  .quiet (.deliver (.command { levelCommand with scope := .map 1, tick := 9 })),
  .quiet (.deliver (.opinion 2 (mapOpinion 8))), .quiet (.deliver (.opinion 3 (mapOpinion 9))),
  .quiet (.deliver (.diverged ⟨.global, 4, 7⟩)), .advance (.map 1)] ++
  editLevelMoves (.map 1) 0 ++ editLevelMoves .global 1

/-- What there is of the map when it goes, and that it is gone and back then. -/
theorem map_leaves_no_trace : ∃ peer after again, levelPeer.play mapMoves = some peer ∧
    peer.buffer.entries.map (·.1.scope) = [.map 1, .global] ∧
    peer.divergences = [⟨.map 1, 5, 3⟩, ⟨.global, 4, 7⟩] ∧
    ((peer.scopes.get? (.map 1)).map fun state =>
      (state.next, state.queue.size, state.drift.samples.length, state.journal.isSome)) =
        some (3, 1, 1, true) ∧
    (Peer.Action.removeScope (.map 1)).run peer = (.ok (), after) ∧ peer.Gone (.map 1) after ∧
    (Peer.Action.addScope (.map 1) 0).run after = (.ok (), again) ∧ peer.Back (.map 1) 0 again := by
  have created : Peer.create {} levelTable {} = .ok levelPeer := by rfl
  have ran : (levelPeer.play mapMoves).isSome := by decide +kernel
  obtain ⟨peer, played⟩ := Option.isSome_iff_exists.mp ran
  have shown : (levelPeer.play mapMoves).map
      (fun peer => (peer.buffer.entries.map (·.1.scope), peer.divergences)) =
      some ([.map 1, .global], [⟨.map 1, 5, 3⟩, ⟨.global, 4, 7⟩]) := by decide +kernel
  have simulated : (levelPeer.play mapMoves).bind (fun peer =>
      (peer.scopes.get? (.map 1)).map fun state =>
        (state.next, state.queue.size, state.drift.samples.length, state.journal.isSome)) =
      some (3, 1, 1, true) := by decide +kernel
  rw [played] at shown simulated
  rw [Option.bind_some] at simulated
  obtain ⟨changed, parted⟩ := Prod.mk.inj (Option.some.inj shown)
  have reachable : peer.Reachable := ⟨{}, levelTable, {}, levelPeer, mapMoves, created, played⟩
  have known : peer.scopes.contains (.map 1) = true := by
    obtain ⟨state, found, -⟩ := Option.map_eq_some_iff.mp simulated
    rw [SortedMap.contains, found]
    rfl
  obtain ⟨⟨after, removed, gone, comes⟩, -⟩ := (reachable.leaves_no_trace (.map 1)).1 known
  obtain ⟨again, added, back, -⟩ := comes 0
  exact ⟨peer, after, again, played, changed, parted, simulated, removed, gone, added, back⟩

end Lockstep
