import Lockstep.Proofs.Cluster.Creation
import Lockstep.Proofs.Cluster.Unison
import Lockstep.World.Colony.Template

/-! # Clusters in lockstep

A cluster is created in unison, and stays so whatever its peers capture and however often it steps,
until ticks run out. So it stays in lockstep, and in each step its peers return the same reports
(`Colony.lockstep`).
-/

namespace Lockstep

/-- What may happen to a cluster from one step to the next. -/
inductive Move where
  | capture (place : Nat) (ambient : Ambient) (capture : Capture)
  | step

def Move.isStep : Move → Bool
  | capture _ _ _ => false
  | step => true

variable {W : Type} [World W]

/-- Make moves one after another. For each step stand the reports of all peers. -/
def Cluster.play : Cluster W → List Move → Option (List (List (List TickReport)) × Cluster W)
  | cluster, [] => some ([], cluster)
  | cluster, .capture place ambient capture :: moves =>
      (cluster.attempt place ambient capture).play moves
  | cluster, .step :: moves => do
    let (answers, cluster) ← cluster.step
    let (later, final) ← cluster.play moves
    return (answers :: later, final)

omit [World W] in
/-- The peers hold the same world, and in each scope the same next tick, stream and queue; and their
authority has found no divergence. -/
structure Cluster.InLockstep (cluster : Cluster W) : Prop where
  world : ∀ left ∈ cluster.members, ∀ right ∈ cluster.members, left.peer.world = right.peer.world
  next : ∀ left ∈ cluster.members, ∀ right ∈ cluster.members, ∀ scope,
    left.peer.nextTick? scope = right.peer.nextTick? scope
  stream : ∀ left ∈ cluster.members, ∀ right ∈ cluster.members, ∀ scope,
    left.peer.streamState? scope = right.peer.streamState? scope
  queue : ∀ left ∈ cluster.members, ∀ right ∈ cluster.members, ∀ scope,
    (left.peer.scopes.get? scope).map (·.queue) = (right.peer.scopes.get? scope).map (·.queue)
  undivided : cluster.authority.divergences = []

namespace Unison

variable {known : DriftOpinion → Prop} {leader : Peer W} {cluster : Cluster W}

omit [World W] in
theorem inLockstep (unison : Unison known leader cluster) : cluster.InLockstep := by
  have alike (left : Member W) (first : left ∈ cluster.members) (right : Member W)
      (second : right ∈ cluster.members) :
      left.peer.Alike right.peer :=
    (unison.follows left first).alike.symm.trans (unison.follows right second).alike
  refine ⟨?_, ?_, ?_, ?_, unison.content.undivided⟩
  · intro left first right second
    exact congrArg Core.world (alike left first right second)
  · intro left first right second scope
    rw [Peer.nextTick?, (alike left first right second).scopes, Peer.nextTick?]
  · intro left first right second scope
    rw [Peer.streamState?, (alike left first right second).scopes, Peer.streamState?]
  · intro left first right second scope
    rw [(alike left first right second).scopes]

/-- As long as there are ticks for it, moves come to an end, and the cluster is still in unison. -/
theorem play {moves : List Move} (unison : Unison known leader cluster)
    (inside : cluster.authority.tick.toNat + moves.countP Move.isStep + 1 < UInt32.size) :
    ∃ answers final, cluster.play moves = some (answers, final) ∧
      answers.length = moves.countP Move.isStep ∧
      final.members.length = cluster.members.length ∧
      (∀ round ∈ answers, round.length = cluster.members.length ∧
        ∀ left ∈ round, ∀ right ∈ round, left = right) ∧
      ∃ more leader', Unison more leader' final := by
  induction moves generalizing known leader cluster with
  | nil =>
    refine ⟨[], cluster, rfl, rfl, rfl, fun round impossible => ?_, known, leader, unison⟩
    cases impossible
  | cons move moves ih =>
    cases move with
    | capture place ambient capture =>
      rw [List.countP_cons_of_neg Bool.false_ne_true] at inside ⊢
      obtain ⟨tick, length⟩ := cluster.attempt_keeps place ambient capture
      have done := ih (unison.attempt place ambient capture) (by rwa [tick])
      rw [length] at done
      exact done
    | step =>
      rw [List.countP_cons_of_pos rfl] at inside ⊢
      obtain ⟨answer, after, stepped, length, tick, more, leader', unison'⟩ :=
        unison.step (by omega)
      have next : after.authority.tick.toNat = cluster.authority.tick.toNat + 1 := by
        rw [tick, Tick.toNat_next (by omega)]
      obtain ⟨answers, final, played, counted, kept, rounds, last⟩ := ih unison' (by omega)
      refine ⟨(cluster.members.map fun _ => answer) :: answers, final, ?_, ?_,
        kept.trans length, ?_, last⟩
      · simp only [Cluster.play, stepped, played, bind, Option.bind]
        rfl
      · rw [List.length_cons, counted]
      · intro round present
        rcases List.mem_cons.mp present with rfl | present
        · refine ⟨List.length_map _, ?_⟩
          intro left first right second
          obtain ⟨_, _, rfl⟩ := List.mem_map.mp first
          obtain ⟨_, _, rfl⟩ := List.mem_map.mp second
          rfl
        · rw [← length]
          exact rounds round present

end Unison

/-! ## Creation -/

omit [World W]

/-- A peer that has been told the first tick is limited to it. -/
theorem Template.limited_bare {template : Template W} (room : template.config.maxInboundQueue ≠ 0)
    (scopes : SortedMap ScopeId ScopeState) :
    Peer.Limited 0 ((template.bare scopes).posted [.tickLimit 0]).inbox.messages
      ((template.bare scopes).posted [.tickLimit 0]) := by
  have listening : (template.bare scopes).inbox.isClosed = false := rfl
  have posted := Inbox.post_of_room listening (Nat.pos_of_ne_zero room) (.tickLimit 0)
  have inbox :
      ((template.bare scopes).posted [.tickLimit 0]).inbox.messages = [.tickLimit 0] :=
    congrArg Inbox.messages posted
  rw [inbox]
  refine ⟨.inr ⟨0, List.mem_singleton_self _⟩, fun impossible => ?_, fun coming => ?_⟩
  · cases impossible
  · cases List.mem_singleton.mp coming
    exact UInt32.le_refl _

/-- A peer that has simulated nothing has voiced nothing. -/
theorem Template.voices_bare {template : Template W} {scopes : SortedMap ScopeId ScopeState}
    (starts : template.StartsAt 0 scopes)
    (representable : ∀ scope ∈ template.scopes, scope.isRepresentable = true) :
    Peer.Voices (fun _ => False) ((template.bare scopes).posted [.tickLimit 0]) := by
  refine ⟨?_, ?_, ?_, ?_⟩
  · intro _ _ impossible
    exact impossible.elim
  · intro _ impossible
    exact impossible.elim
  · intro bytes impossible
    have impossible : Outbound.opinion bytes ∈ [] := impossible
    cases impossible
  · intro scope next reached
    obtain ⟨state, found, _⟩ := Option.map_eq_some_iff.mp reached
    rcases (starts scope state found).1 with rfl | named
    · rfl
    · exact representable scope named

/-- A new cluster is in unison if its scopes have exact wire forms. -/
theorem Cluster.unison_of_create {template : Template W} {peers : Nat} {cluster : Cluster W}
    (created : Cluster.create template peers = .ok cluster)
    (representable : ∀ scope ∈ template.scopes, scope.isRepresentable = true) :
    cluster.authority.tick = 0 ∧ cluster.members.length = peers ∧
      ∃ leader, Unison (fun _ => False) leader cluster := by
  obtain ⟨valid, -, authority, length, -⟩ := create_eq_ok created
  obtain ⟨scopes, starts, members⟩ := create_alike created
  have tick : cluster.authority.tick = 0 := by rw [authority]; rfl
  have limited := Template.limited_bare (SyncConfig.inboundQueue_ne_zero valid) scopes
  have voices := Template.voices_bare starts representable
  refine ⟨tick, length, _, ?_, rfl, tick ▸ limited, voices, ?_, ?_⟩
  · intro member present
    obtain ⟨id, rfl⟩ := members member present
    have alone :
        ({ peer := { template.bare scopes with id }, number := some id } : Member W).Follows
          (template.bare scopes) :=
      ⟨rfl, rfl⟩
    exact alone.tell _
  · rw [authority]
    exact ⟨rfl, DriftArbiter.keeps_new _⟩
  · rw [authority]
    intro peer bytes impossible
    cases impossible

/-! ## Colonies -/

namespace Colony

/-- All maps of a colony are in scopes of some kind. -/
def Within (kind : ScopeId → Prop) (colony : Colony) : Prop :=
  ∀ scope ∈ colony.maps.keys, kind scope

variable {kind : ScopeId → Prop}

theorem Within.insert {colony : Colony} (within : colony.Within kind) {scope : ScopeId}
    (here : kind scope) (map : ColonyMap) :
    ({ colony with maps := colony.maps.insert scope map } : Colony).Within kind := by
  intro other member
  obtain ⟨other', found⟩ := SortedMap.mem_keys_iff.mp member
  rcases SortedMap.get?_insert_eq_some.mp found with ⟨rfl, _⟩ | ⟨_, found⟩
  · exact here
  · exact within other (SortedMap.mem_keys_iff.mpr ⟨other', found⟩)

theorem within_ofMaps {maps : List (UInt32 × List (EntityId × String))}
    (each : ∀ entry ∈ maps, kind (.map entry.1)) : (ofMaps maps).Within kind := by
  have peopled (id : UInt32) (here : kind (.map id)) (workers : List (EntityId × String))
      (colony : Colony) (before : colony.Within kind) :
      (workers.foldl (fun colony worker => colony.addWorker (.map id) worker.1 worker.2)
        colony).Within kind := by
    induction workers generalizing colony with
    | nil => exact before
    | cons worker workers ih => exact ih _ (before.insert here _)
  have founded (colony : Colony) (before : colony.Within kind) : (maps.foldl (fun colony entry =>
      entry.2.foldl (fun colony worker => colony.addWorker (.map entry.1) worker.1 worker.2)
        { colony with maps := colony.maps.insert (.map entry.1) {} }) colony).Within kind := by
    induction maps generalizing colony with
    | nil => exact before
    | cons entry maps ih =>
      obtain ⟨here, rest⟩ := List.forall_mem_cons.mp each
      exact ih rest _ (peopled entry.1 here entry.2 _ (before.insert here {}))
  refine founded {} fun scope impossible => ?_
  cases impossible

/-- Under any accepted settings, and from any maps that have exact wire forms, a cluster of peers
comes about, or there is no memory for it; and it stays in lockstep, whatever its peers capture, for
as many steps as there are ticks: each step returns, and with the same reports from all peers. -/
theorem lockstep {config : SyncConfig} (accepted : config.validate = .ok ())
    {maps : List (UInt32 × List (EntityId × String))}
    (representable : ∀ entry ∈ maps, (ScopeId.map entry.1).isRepresentable = true) (peers : Nat) :
    (∀ error, Cluster.create (template config (ofMaps maps)) peers = .error error →
      ∃ breakdown, error = .brokeDown breakdown ∧ config.Exceeds breakdown) ∧
    ∀ cluster, Cluster.create (template config (ofMaps maps)) peers = .ok cluster →
      ∀ moves : List Move, moves.countP Move.isStep < UInt32.size - 1 →
        ∃ answers final, cluster.play moves = some (answers, final) ∧
          answers.length = moves.countP Move.isStep ∧
          (∀ round ∈ answers, round.length = peers ∧
            ∀ left ∈ round, ∀ right ∈ round, left = right) ∧
          final.members.length = peers ∧ final.InLockstep := by
  have distinct := (ofMaps maps).maps.nodup_keys
  have apart : (ofMaps maps).Within (· ≠ .global) := within_ofMaps fun _ _ => nofun
  have mapped : ScopeId.global ∉ (ofMaps maps).maps.keys := fun member => apart .global member rfl
  have exact' : (ofMaps maps).Within (·.isRepresentable = true) := within_ofMaps representable
  refine ⟨fun error failed => Cluster.create_eq_error accepted distinct mapped failed, ?_⟩
  intro cluster created moves few
  obtain ⟨tick, length, leader, unison⟩ := Cluster.unison_of_create created exact'
  have inside : cluster.authority.tick.toNat + moves.countP Move.isStep + 1 < UInt32.size := by
    rw [tick]
    have zero : (0 : Tick).toNat = 0 := rfl
    omega
  obtain ⟨answers, final, played, counted, kept, rounds, more, leader', last⟩ := unison.play inside
  rw [length] at kept rounds
  exact ⟨answers, final, played, counted, rounds, kept, last.inLockstep⟩

end Colony

/-- Little room for messages, and an opinion in each tick. -/
def pairConfig : SyncConfig where
  schedulingDelay := 0
  driftExchangeInterval := 1
  maxInboundQueue := 2

def pairTemplate : Template Colony := Colony.template pairConfig (Colony.ofMaps [(1, [(1, "Ada")])])

/-- Two peers of a small colony. -/
def pair : Cluster Colony := (Cluster.create pairTemplate 2).toOption.get (by decide +kernel)

/-- The peers capture more than there is room for, so in the second step no tick runs. -/
def pairMoves : List Move := [
  .step, .capture 0 {} (.field 2 .global .unit none (.scalar (.i32 5))),
  .capture 1 {} (.operation 0 10 (.map 1) .unit []), .step, .step]

def pairLast : List (List (List TickReport)) × Cluster Colony :=
  (pair.play pairMoves).get (by decide +kernel)

theorem pair_in_lockstep :
    pairLast.2.InLockstep ∧ pairLast.2.members.length = 2 ∧
      pairLast.1.map (·.map (·.length)) = [[4, 4], [0, 0], [4, 4]] ∧
      ∀ member ∈ pairLast.2.members, member.peer.world.alertLevel = 5 ∧
        member.peer.world.log.length = 2 := by
  have created : Cluster.create pairTemplate 2 = .ok pair := by rfl
  have played : pair.play pairMoves = some pairLast := (Option.some_get _).symm
  have few : pairMoves.countP Move.isStep < UInt32.size - 1 := by decide
  have facts : pairLast.1.map (·.map (·.length)) = [[4, 4], [0, 0], [4, 4]] ∧
      ∀ member ∈ pairLast.2.members, member.peer.world.alertLevel = 5 ∧
        member.peer.world.log.length = 2 := by
    decide +kernel
  obtain ⟨answers, final, same, -, -, length, together⟩ :=
    (Colony.lockstep rfl (by decide) 2).2 pair created pairMoves few
  have last : pairLast = (answers, final) := Option.some.inj (played.symm.trans same)
  rw [last] at facts ⊢
  exact ⟨together, length, facts⟩

end Lockstep
