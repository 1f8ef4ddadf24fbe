import Lockstep.Proofs.Cluster.Creation
import Lockstep.Proofs.Cluster.Following
import Lockstep.World.Colony.Template

/-! # Agreement under any pace

Peers that start with an authority that stamps ahead run in each tick exactly what the authority has
stamped for it, in whatever order the peers and the authority act, as long as every message finds
room. Two peers that have simulated a tick have therefore run the same commands in it.
-/

namespace Lockstep

variable {W : Type} [World W]

namespace History

variable {history after start final : History W}

/-! ## Runs -/

omit [World W] in
theorem clock_deliver (member : Member W) (authority : Authority) :
    (member.deliver authority).2.tick = authority.tick ∧
      (member.deliver authority).2.delay = authority.delay := by
  unfold Member.deliver
  cases member.number with
  | none => exact ⟨rfl, rfl⟩
  | some number => exact ⟨rfl, rfl⟩

/-- The authority's tick does not fall, its delay stays, and what is lost is not found again. -/
structure Precedes (history after : History W) : Prop where
  tick : history.cluster.authority.tick.toNat ≤ after.cluster.authority.tick.toNat
  delay : after.cluster.authority.delay = history.cluster.authority.delay
  lossless : after.lossless → history.lossless

omit [World W] in
theorem Precedes.trans {middle : History W} (first : history.Precedes middle)
    (second : middle.Precedes after) : history.Precedes after where
  tick := Nat.le_trans first.tick second.tick
  delay := second.delay.trans first.delay
  lossless := first.lossless ∘ second.lossless

omit [World W] in
theorem Precedes.roomy (precedes : history.Precedes after) (roomy : after.Roomy) :
    history.Roomy := by
  have tick := precedes.tick
  unfold Roomy at roomy ⊢
  rw [precedes.delay] at roomy
  omega

theorem precedes_perform {call : ClusterCall} (performed : history.perform call = some after) :
    history.Precedes after := by
  cases call with
  | peer place call =>
    obtain ⟨member, records, peer, -, -, rfl⟩ := act_eq_some performed
    obtain ⟨tick, delay⟩ := clock_deliver { member with peer } history.cluster.authority
    exact ⟨Nat.le_of_eq (congrArg UInt32.toNat tick.symm), delay, id⟩
  | pump =>
    cases performed
    refine ⟨Nat.le_of_eq ?_, Authority.delay_pump _,
      fun lossless => (Bool.and_eq_true_iff.mp lossless).1⟩
    exact congrArg UInt32.toNat (Authority.tick_pump history.cluster.authority).symm
  | release =>
    cases performed
    refine ⟨?_, Authority.delay_pump _, fun lossless => (Bool.and_eq_true_iff.mp lossless).1⟩
    have later :
      history.release.cluster.authority.tick = history.cluster.authority.pump.2.tick.next := rfl
    rw [later, Authority.tick_pump]
    exact Tick.le_toNat_next _

theorem precedes_play {calls : List ClusterCall} (played : history.play calls = some after) :
    history.Precedes after := by
  induction calls generalizing history with
  | nil =>
    cases played
    exact ⟨Nat.le_refl _, rfl, id⟩
  | cons call calls ih =>
    obtain ⟨middle, performed, later⟩ := Option.bind_eq_some_iff.mp played
    exact (precedes_perform performed).trans (ih later)

/-- One call, of a peer or of the authority, leaves all peers following. -/
theorem Sound.perform {call : ClusterCall} (sound : history.Sound)
    (performed : history.perform call = some after) (lossless : after.lossless)
    (roomy : after.Roomy) : after.Sound := by
  have before : history.Roomy := (precedes_perform performed).roomy roomy
  cases call with
  | peer place call => exact sound.act before performed
  | pump =>
    cases performed
    exact sound.pump before lossless
  | release =>
    cases performed
    exact sound.release before lossless

theorem Sound.play {calls : List ClusterCall} (sound : history.Sound)
    (played : history.play calls = some after) (lossless : after.lossless) (roomy : after.Roomy) :
    after.Sound := by
  induction calls generalizing history with
  | nil =>
    cases played
    exact sound
  | cons call calls ih =>
    obtain ⟨middle, performed, later⟩ := Option.bind_eq_some_iff.mp played
    have precedes := precedes_play later
    exact ih (sound.perform performed (precedes.lossless lossless) (precedes.roomy roomy)) later

/-- While all peers follow, every call to one of them returns. -/
theorem Sound.isSome_perform (sound : history.Sound) (roomy : history.Roomy) {place : Nat}
    (present : place < history.cluster.members.length) (call : PeerCall) :
    (history.perform (.peer place call)).isSome := by
  have here := List.getElem?_eq_getElem present
  have follows := sound.follows place _ here
  obtain ⟨⟨records, peer⟩, performed⟩ :=
    Option.isSome_iff_exists.mp (call.isSome_perform follows roomy.inside)
  have reached : history.cluster.member place = .ok history.cluster.members[place] := by
    rw [Cluster.member, here]
  change (history.act place call).isSome
  unfold History.act
  rw [here, Option.bind_eq_bind, Option.bind_some, performed, Option.bind_eq_bind, Option.bind_some]
  unfold Cluster.act
  rw [reached]
  rfl

end History

/-! ## Agreement -/

/-- Whether a record is of a tick. -/
def TickRecord.isOf (scope : ScopeId) (tick : Tick) (record : TickRecord) : Bool :=
  record.report.scope == scope && record.report.tick == tick

omit [World W] in
/-- A peer that follows its authority has simulated each tick before its next one exactly once. -/
theorem Peer.Follows.unique {stamped : List Command} {authority : Tick} {past : List TickRecord}
    {incoming : List Inbound} {peer : Peer W}
    (follows : peer.Follows stamped authority past incoming) {scope : ScopeId} {next tick : Tick}
    (known : peer.nextTick? scope = some next) (reached : tick < next) :
    ∃ record, past.filter (·.isOf scope tick) = [record] := by
  have split : past.filter (·.isOf scope tick) =
      (past.filter (·.report.scope == scope)).filter (·.report.tick == tick) := by
    rw [List.filter_filter]
    refine List.filter_congr fun record _ => ?_
    rw [TickRecord.isOf, Bool.and_comm]
  have mapped : ((past.filter (·.isOf scope tick)).map (·.report.tick.toNat)) = [tick.toNat] := by
    have here : tick.toNat ∈ List.range next.toNat :=
      List.mem_range.mpr (UInt32.lt_iff_toNat_lt.mp reached)
    have once : (List.range next.toNat).filter (· == tick.toNat) = [tick.toNat] := by
      rw [List.filter_beq, List.nodup_range.count, if_pos here]
      rfl
    rw [split, ← once, ← follows.ticks scope next known, List.filter_map]
    refine congrArg _ (List.filter_congr fun record _ => ?_)
    simp [UInt32.toNat_inj, Bool.beq_eq_decide_eq]
  obtain ⟨record, rest, cons, -, last⟩ := List.map_eq_cons_iff.mp mapped
  rw [List.map_eq_nil_iff.mp last] at cons
  exact ⟨record, cons⟩

omit [World W] in
/-- Every new cluster whose authority stamps ahead is a fresh start. -/
theorem fresh_of_create {template : Template W} {peers : Nat} {cluster : Cluster W}
    (created : Cluster.create template peers = .ok cluster)
    (delayed : template.config.schedulingDelay ≠ 0) : History.Fresh { cluster } := by
  obtain ⟨valid, -, authority, -, -⟩ := Cluster.create_eq_ok created
  obtain ⟨scopes, starts, members⟩ := Cluster.create_alike created
  refine ⟨?_, ?_, fun member present => ?_, rfl, fun _ => rfl⟩
  · rw [authority]
    exact Nat.pos_of_ne_zero fun zero => delayed (UInt32.toNat_inj.mp zero)
  · rw [authority]
    rfl
  · obtain ⟨id, rfl⟩ := members member present
    have room := SyncConfig.inboundQueue_ne_zero valid
    have told : Cluster.newcomer (.tickLimit 0) (template.bare scopes) id =
        Member.hear [.tickLimit 0]
          { peer := { template.bare scopes with id }, number := some id } := by
      apply Member.tell_of_room rfl rfl
      simpa [Member.hasRoom, Template.bare] using Nat.one_le_iff_ne_zero.mpr room
    rw [told]
    refine ⟨rfl, rfl, rfl, rfl, ?_⟩
    intro scope state found
    obtain ⟨-, rfl | rfl⟩ := starts scope state found
    · exact ⟨rfl, rfl⟩
    · exact ⟨rfl, rfl⟩

/-- From a fresh start, and for any order of captures, looks into the inbox, simulated ticks and
acts of the authority: each tick that a peer has simulated ran once, and it ran what the authority
has stamped for it, in the order of receipt, so two peers ran the same in it; nothing ran late, nor
beyond the authority's tick; and no call fails to return. -/
theorem agreement_under_any_pace {start final : History W} {calls : List ClusterCall}
    (fresh : start.Fresh) (played : start.play calls = some final) (lossless : final.lossless)
    (roomy : final.Roomy) :
    (∀ place (member : Member W), final.cluster.members[place]? = some member →
      (∀ scope next tick, member.peer.nextTick? scope = some next → tick < next →
        ∃ record, (final.ran place).filter (·.isOf scope tick) = [record] ∧
          record.commands = final.stamped.filter (·.isFor scope tick)) ∧
      ∀ record ∈ final.ran place, record.Faithful final.stamped final.cluster.authority.tick) ∧
    (∀ first (one : Member W) second (other : Member W), final.cluster.members[first]? = some one →
      final.cluster.members[second]? = some other →
        ∀ left ∈ final.ran first, ∀ right ∈ final.ran second,
        left.report.scope = right.report.scope → left.report.tick = right.report.tick →
          left.commands = right.commands) ∧
    ∀ place call, place < final.cluster.members.length →
      (final.perform (.peer place call)).isSome := by
  have sound : final.Sound := fresh.sound.play played lossless roomy
  refine ⟨fun place member here => ⟨fun scope next tick known reached => ?_, ?_⟩, ?_, ?_⟩
  · have follows := sound.follows place member here
    obtain ⟨record, once⟩ := follows.unique known reached
    refine ⟨record, once, ?_⟩
    obtain ⟨ran, same⟩ := List.mem_filter.mp (once ▸ List.mem_singleton.mpr rfl : record ∈ _)
    simp only [TickRecord.isOf, Bool.and_eq_true, beq_iff_eq] at same
    rw [(follows.faithful record ran).commands, same.1, same.2]
  · exact (sound.follows place member here).faithful
  · intro first one second other here there left ranLeft right ranRight scope tick
    have faithful := (sound.follows first one here).faithful left ranLeft
    have otherwise := (sound.follows second other there).faithful right ranRight
    rw [faithful.commands, otherwise.commands, scope, tick]
  · exact fun place call present => sound.isSome_perform roomy present call

/-- Two peers of a small colony. -/
def duo : Cluster Colony :=
  (Cluster.create
    (Colony.template { schedulingDelay := 1 } (Colony.ofMaps [(1, [(1, "Ada")])])) 2).toOption.get
    (by decide +kernel)

/-- The first peer raises the alert and goes ahead; the second lags, and then runs all at once. -/
def duoCalls : List ClusterCall := [
  .peer 0 (.capture {} (.field 2 .global .unit none (.scalar (.i32 5)))),
  .release, .peer 0 .advanceAll, .peer 1 (.capture {} (.operation 0 10 (.map 1) .unit [])), .pump,
  .release,
  .peer 0 (.runUntil .global 9), .peer 0 (.advance (.map 1)), .peer 1 (.runUntil .global 9)]

/-- What becomes of the two peers. -/
def duoFinal : History Colony :=
  (({ cluster := duo } : History Colony).play duoCalls).get (by decide +kernel)

theorem duo_agrees :
    (duoFinal.ran 0).length = 5 ∧ (duoFinal.ran 1).length = 3 ∧ duoFinal.stamped.length = 2 ∧
      ∀ left ∈ duoFinal.ran 0, ∀ right ∈ duoFinal.ran 1,
        left.report.scope = right.report.scope → left.report.tick = right.report.tick →
          left.commands = right.commands := by
  have created :
      Cluster.create
        (Colony.template { schedulingDelay := 1 } (Colony.ofMaps [(1, [(1, "Ada")])])) 2 =
        .ok duo := by
    rfl
  have played : ({ cluster := duo } : History Colony).play duoCalls = some duoFinal :=
    (Option.some_get _).symm
  have facts : (duoFinal.lossless ∧
      duoFinal.cluster.authority.tick.toNat + duoFinal.cluster.authority.delay.toNat + 1 <
      UInt32.size ∧ (duoFinal.cluster.members[0]?).isSome ∧ (duoFinal.cluster.members[1]?).isSome) ∧
      (duoFinal.ran 0).length = 5 ∧ (duoFinal.ran 1).length = 3 ∧ duoFinal.stamped.length = 2 := by
    decide +kernel
  obtain ⟨⟨lossless, roomy, first, second⟩, ran, lagged, stamped⟩ := facts
  obtain ⟨one, first⟩ := Option.isSome_iff_exists.mp first
  obtain ⟨other, second⟩ := Option.isSome_iff_exists.mp second
  have agreement :=
    agreement_under_any_pace (fresh_of_create created (by decide)) played lossless roomy
  exact ⟨ran, lagged, stamped, agreement.2.1 0 one 1 other first second⟩

end Lockstep
