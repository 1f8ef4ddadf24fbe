import Lockstep.Proofs.Drift
import Lockstep.Proofs.Drift.Monitor
import Lockstep.Proofs.Peer.Core

/-! # Catching up

Below the last word a peer that catches up arrives: each round runs a tick at least, and so there is
one less that the tick limit allows. On its way it voices opinions, one at most for each tick that
it simulates, so no two of them are on the same tick of the same scope.
-/

namespace Lockstep

/-- Replacing a value changes a sum over all values by the difference. -/
theorem SortedMap.sum_values_insert {κ α : Type} [Ord κ] [Std.TransOrd κ] [Std.LawfulEqOrd κ]
    (f : α → Nat) {map : SortedMap κ α} {key : κ} {old : α} (found : map.get? key = some old)
    (value : α) :
    ((map.insert key value).values.map f).sum + f old = (map.values.map f).sum + f value := by
  obtain ⟨entries, sorted⟩ := map
  simp only [get?, insert, values] at found ⊢
  induction entries with
  | nil => cases found
  | cons head rest ih =>
    obtain ⟨below, ascending⟩ := List.pairwise_cons.mp sorted
    rw [insertEntry]
    split
    next before =>
      have above (entry : κ × α) (member : entry ∈ head :: rest) : compare key entry.1 = .lt := by
        rcases List.mem_cons.mp member with rfl | member
        · exact before
        · exact Std.TransCmp.lt_trans before (below entry member)
      rw [find?_eq_none_of_lt above] at found
      cases found
    next same =>
      rw [List.find?_cons, same] at found
      cases found
      simp only [List.map_cons, List.sum_cons]
      omega
    next after =>
      rw [List.find?_cons, after] at found
      have later := ih ascending found
      simp only [List.map_cons, List.sum_cons]
      omega

namespace Peer

variable {W : Type} {peer final : Peer W} {limit : Tick}

/-! ## Tick limits -/

/-- A peer has been given tick limits, or will be when it takes in what comes, and none of them is
beyond a tick. -/
structure Limited (top : Tick) (incoming : List Inbound) (peer : Peer W) : Prop where
  given : peer.tickLimit.isSome ∨ ∃ limit, .tickLimit limit ∈ incoming
  within {limit : Tick} : peer.tickLimit = some limit → limit ≤ top
  coming {limit : Tick} : .tickLimit limit ∈ incoming → limit ≤ top

theorem tickLimit_receive_of_ne (peer : Peer W) {message : Inbound}
    (other : ∀ limit, message ≠ .tickLimit limit) :
    (peer.receive message).tickLimit = peer.tickLimit := by
  cases message with
  | command arrived => rfl
  | tickLimit limit => exact absurd rfl (other limit)
  | opinion author bytes => exact congrArg Core.tickLimit (core_receive_opinion peer author bytes)
  | diverged divergence => exact congrArg Core.tickLimit (core_receive_diverged peer divergence)

theorem Limited.receive {top : Tick} {message : Inbound} {incoming : List Inbound}
    (limited : Limited top (message :: incoming) peer) :
    Limited top incoming (peer.receive message) := by
  have coming {other : Tick} (member : .tickLimit other ∈ incoming) : other ≤ top :=
    limited.coming (List.mem_cons_of_mem _ member)
  by_cases limits : ∃ limit, message = .tickLimit limit
  · obtain ⟨limit, rfl⟩ := limits
    have here : limit ≤ top := limited.coming List.mem_cons_self
    refine ⟨.inl rfl, fun {other} raised => ?_, coming⟩
    have raised : some ((peer.tickLimit.map (max · limit)).getD limit) = some other := raised
    cases before : peer.tickLimit with
    | none =>
      rw [before] at raised
      exact Option.some.inj raised ▸ here
    | some old =>
      rw [before] at raised
      have below : old ≤ top := limited.within before
      have largest : max old limit = other := Option.some.inj raised
      rw [← largest, UInt32.le_iff_toNat_le, Tick.toNat_max]
      exact Nat.max_le.mpr ⟨UInt32.le_iff_toNat_le.mp below, UInt32.le_iff_toNat_le.mp here⟩
  · have other (limit : Tick) : message ≠ .tickLimit limit := fun same => limits ⟨limit, same⟩
    have same := tickLimit_receive_of_ne peer other
    refine ⟨?_, fun raised => limited.within (same ▸ raised), coming⟩
    rcases limited.given with given | ⟨limit, member⟩
    · exact .inl (same ▸ given)
    · exact .inr ⟨limit, (List.mem_cons.mp member).resolve_left fun impossible =>
        other limit impossible.symm⟩

/-- Once it has taken in its messages, such a peer has a limit. -/
theorem Limited.pump {top : Tick} (limited : Limited top peer.inbox.messages peer) :
    ∃ limit, peer.pump.2.tickLimit = some limit ∧ limit ≤ top := by
  have steps (incoming : List Inbound) (other : Peer W) (start : Limited top incoming other) :
      Limited top [] (incoming.foldl Peer.receive other) := by
    induction incoming generalizing other with
    | nil => exact start
    | cons message incoming ih => exact ih _ start.receive
  have emptied : Limited top peer.inbox.messages peer.emptied :=
    ⟨limited.given, limited.within, limited.coming⟩
  have last := steps _ _ emptied
  rcases last.given with given | ⟨_, impossible⟩
  · obtain ⟨limit, same⟩ := Option.isSome_iff_exists.mp given
    exact ⟨limit, same, last.within same⟩
  · cases impossible

/-! ## Arriving -/

/-- A peer that has taken in all its messages, and may simulate up to a tick. -/
structure Idle (limit : Tick) (peer : Peer W) : Prop where
  empty : peer.inbox.messages = []
  limited : peer.tickLimit = some limit

/-- Taking in no messages changes nothing. -/
theorem Idle.pump_eq (idle : Idle limit peer) : peer.pump.2 = peer := by
  rw [pump_eq_foldl, idle.empty, List.foldl_nil, emptied, ← idle.empty]

theorem idle_pump (limited : peer.pump.2.tickLimit = some limit) : Idle limit peer.pump.2 :=
  ⟨by rw [inbox_pump], limited⟩

/-- How many ticks the scopes may still run. -/
def ticksLeft (limit : Tick) (peer : Peer W) : Nat := (peer.scopes.values.map (ticksUpTo limit)).sum

theorem foldr_ticksUpTo (limit : Tick) (states : List ScopeState) :
    states.foldr (ticksUpTo limit · + ·) 1 = (states.map (ticksUpTo limit)).sum + 1 := by
  induction states with
  | nil => rfl
  | cons state states ih =>
    rw [List.foldr_cons, ih, List.map_cons, List.sum_cons]
    omega

variable [World W]

/-- A tick is one less to run. -/
theorem ticksLeft_runTick {scope : ScopeId} {state : ScopeState}
    (found : peer.scopes.get? scope = some state) (free : state.next ≤ limit)
    (inside : limit.toNat + 1 < UInt32.size) :
    ticksLeft limit (peer.runTick scope state).2 + 1 = ticksLeft limit peer := by
  have replaced := SortedMap.sum_values_insert (ticksUpTo limit) found (peer.stateAfter scope state)
  have below : state.next.toNat ≤ limit.toNat := UInt32.le_iff_toNat_le.mp free
  have later : state.next.next.toNat = state.next.toNat + 1 := Tick.toNat_next (by omega)
  rw [ticksLeft, ticksLeft, scopes_runTick]
  rw [ticksUpTo, ticksUpTo, next_stateAfter, later] at replaced
  omega

theorem Idle.runTick (idle : Idle limit peer) (scope : ScopeId) (state : ScopeState) :
    Idle limit (peer.runTick scope state).2 :=
  ⟨by rw [inbox_runTick, idle.empty], by rw [tickLimit_runTick, idle.limited]⟩

/-- All that an idle peer does is to simulate ticks up to its limit. -/
theorem Works.idle_induction {motive : Peer W → List TickRecord → Prop}
    {records : List TickRecord} (works : Works peer records final) (idle : Idle limit peer)
    (rest : Idle limit final → motive final [])
    (tick : ∀ {peer : Peer W} {scope : ScopeId} {state : ScopeState} {records : List TickRecord},
      Idle limit peer → peer.scopes.get? scope = some state → state.next ≤ limit →
        motive (peer.runTick scope state).2 records →
        motive peer ((peer.recordTick scope state).1 :: records)) :
    motive peer records := by
  induction works with
  | rest => exact rest idle
  | pump _ ih =>
    rw [idle.pump_eq] at ih
    exact ih idle rest
  | @tick peer final scope state records found free _ ih =>
    rw [idle.pump_eq] at found free ih ⊢
    have reached : state.next ≤ limit := by
      rw [idle.limited] at free
      exact UInt32.not_lt.mp (of_decide_eq_false free)
    exact tick idle found reached (ih (idle.runTick scope state) rest)

/-- An idle peer stays idle, and each tick that it simulates is one less to run. -/
theorem Works.idle {records : List TickRecord} (works : Works peer records final)
    (idle : Idle limit peer) (inside : limit.toNat + 1 < UInt32.size) :
    Idle limit final ∧ ticksLeft limit final + records.length = ticksLeft limit peer := by
  refine works.idle_induction
    (motive := fun peer records => Idle limit final ∧
      ticksLeft limit final + records.length = ticksLeft limit peer)
    idle (fun last => ⟨last, rfl⟩) ?_
  intro peer scope state records idle found reached ⟨last, left⟩
  refine ⟨last, ?_⟩
  have less := ticksLeft_runTick found reached inside
  rw [List.length_cons]
  omega

/-- With rounds for all ticks that are left, a peer arrives. -/
theorem catchUpWithin_arrives {rounds : Nat} (idle : Idle limit peer)
    (inside : limit.toNat + 1 < UInt32.size) (enough : ticksLeft limit peer < rounds)
    (reports : List TickReport) :
    ∃ records answer final, catchUpWithin rounds peer reports = some (answer, final) ∧
      Works peer records final := by
  induction rounds generalizing peer reports with
  | zero => omega
  | succ rounds ih =>
    have works := works_recordAll peer
    have same := advanceAll_eq_record peer
    obtain ⟨idle', left⟩ := works.idle idle inside
    cases ran : peer.recordAll.1 with
    | nil =>
      refine ⟨_, reports.reverse, peer.recordAll.2, ?_, works⟩
      rw [ran, List.map_nil] at same
      simp only [catchUpWithin, same]
    | cons record records =>
      rw [ran, List.map_cons] at same
      rw [ran, List.length_cons] at left
      obtain ⟨others, answer, final, arrived, later⟩ :=
        ih idle' (by omega) ((record.report :: records.map (·.report)).reverse ++ reports)
      refine ⟨_, answer, final, ?_, works.trans later⟩
      simp only [catchUpWithin, same]
      exact arrived

/-- A peer that is limited below the last word catches up. -/
theorem catchUp_arrives (limited : peer.pump.2.tickLimit = some limit)
    (inside : limit.toNat + 1 < UInt32.size) :
    ∃ records answer final, peer.catchUp = some (answer, final) ∧
      Works peer.pump.2 records final := by
  have enough :
      ticksLeft limit peer.pump.2 < peer.pump.2.scopes.values.foldr (ticksUpTo limit · + ·) 1 := by
    rw [foldr_ticksUpTo, ticksLeft]
    exact Nat.lt_succ_self _
  obtain ⟨records, answer, final, arrived, works⟩ :=
    catchUpWithin_arrives (idle_pump limited) inside enough []
  refine ⟨records, answer, final, ?_, works⟩
  simp only [catchUp, limited]
  exact arrived

/-! ## Opinions on the way -/

omit [World W]

/-- Opinions are known that agree with each other: those voiced are among them, and all are on ticks
that their scopes, which have exact wire forms, have simulated. -/
structure Voices (known : DriftOpinion → Prop) (peer : Peer W) : Prop where
  coherent : Coherent known
  past {opinion : DriftOpinion} : known opinion → ∃ next, peer.nextTick? opinion.scope = some next ∧
    opinion.tick < next
  voiced {bytes : Bytes} : .opinion bytes ∈ peer.outbox → ∃ opinion, known opinion ∧
    DriftOpinion.decode bytes = .ok opinion
  representable {scope : ScopeId} {next : Tick} : peer.nextTick? scope = some next →
    scope.isRepresentable = true

variable {known : DriftOpinion → Prop}

@[simp] theorem outbox_pump (peer : Peer W) : peer.pump.2.outbox = peer.outbox :=
  pump_keeps outbox (fun _ => rfl) outbox_receive peer

/-- Taking in messages voices nothing. -/
theorem Voices.pump (voices : Voices known peer) : Voices known peer.pump.2 where
  coherent := voices.coherent
  past knows := by
    rw [nextTick?_pump]
    exact voices.past knows
  voiced member := voices.voiced (outbox_pump peer ▸ member)
  representable found := voices.representable (nextTick?_pump peer _ ▸ found)

variable [World W]

/-- What a peer has voiced after a tick is what it had voiced before, or the opinion on the tick. -/
theorem voiced_runTick {scope : ScopeId} {state : ScopeState} {bytes : Bytes}
    (member : .opinion bytes ∈ (peer.runTick scope state).2.outbox) :
    .opinion bytes ∈ peer.outbox ∨
      ∃ opinion, peer.opinionAfter? scope state = some opinion ∧ opinion.encode = .ok bytes := by
  have outbox : (peer.runTick scope state).2.outbox =
      ((peer.opinionAfter? scope state).map voice).getD [] ++ peer.outbox :=
    congrArg Core.outbox (core_runTick peer scope state)
  rw [outbox] at member
  rcases List.mem_append.mp member with new | old
  · cases due : peer.opinionAfter? scope state with
    | none =>
      rw [due] at new
      cases new
    | some opinion =>
      rw [due, Option.map_some, Option.getD_some, voice] at new
      split at new
      next written encoded =>
        cases List.mem_singleton.mp new
        exact .inr ⟨opinion, rfl, encoded⟩
      next => cases new
  · exact .inl old

/-- A tick voices one opinion at most, on itself. -/
theorem Voices.runTick {scope : ScopeId} {state : ScopeState} (voices : Voices known peer)
    (found : peer.scopes.get? scope = some state) (inside : state.next.toNat + 1 < UInt32.size) :
    Voices (fun opinion => known opinion ∨ peer.opinionAfter? scope state = some opinion)
      (peer.runTick scope state).2 := by
  have here : peer.nextTick? scope = some state.next := by rw [nextTick?, found, Option.map_some]
  have later : state.next < state.next.next := by
    rw [UInt32.lt_iff_toNat_lt, Tick.toNat_next inside]
    exact Nat.lt_succ_self _
  have apart (old new : DriftOpinion) (knows : known old)
      (due : peer.opinionAfter? scope state = some new) (scopes : old.scope = new.scope) :
      old.tick ≠ new.tick := by
    intro ticks
    obtain ⟨rfl, same⟩ := DriftMonitor.endTick_eq_some due
    obtain ⟨next, reached, below⟩ := voices.past knows
    rw [scopes] at reached
    cases here.symm.trans reached
    rw [ticks, same] at below
    exact absurd below (UInt32.lt_irrefl _)
  refine ⟨voices.coherent.extend apart, ?_, ?_, ?_⟩
  · rintro opinion (knows | new)
    · obtain ⟨next, reached, below⟩ := voices.past knows
      by_cases same : opinion.scope = scope
      · rw [same] at reached ⊢
        cases here.symm.trans reached
        exact ⟨_, nextTick?_runTick_self peer scope state, UInt32.lt_trans below later⟩
      · exact ⟨next, (nextTick?_runTick_of_ne peer state same).trans reached, below⟩
    · obtain ⟨rfl, same⟩ := DriftMonitor.endTick_eq_some new
      exact ⟨_, nextTick?_runTick_self peer _ state, same ▸ later⟩
  · intro bytes member
    rcases voiced_runTick member with old | ⟨opinion, due, encoded⟩
    · obtain ⟨opinion, knows, decoded⟩ := voices.voiced old
      exact ⟨opinion, .inl knows, decoded⟩
    · obtain ⟨scope', _⟩ := DriftMonitor.endTick_eq_some due
      have exact' : opinion.scope.isRepresentable = true := scope' ▸ voices.representable here
      exact ⟨opinion, .inr due, DriftOpinion.decode_encode exact' encoded⟩
  · intro other next reached
    by_cases same : other = scope
    · exact same ▸ voices.representable here
    · rw [nextTick?_runTick_of_ne peer state same] at reached
      exact voices.representable reached

/-- Whatever an idle peer simulates, the opinions on it agree with those before. -/
theorem Works.voices {records : List TickRecord} (works : Works peer records final)
    (idle : Idle limit peer) (inside : limit.toNat + 1 < UInt32.size) (voices : Voices known peer) :
    ∃ more, (∀ opinion, known opinion → more opinion) ∧ Voices more final := by
  revert known
  refine works.idle_induction
    (motive := fun peer _ => ∀ {known}, Voices known peer →
      ∃ more, (∀ opinion, known opinion → more opinion) ∧ Voices more final)
    idle (fun _ known voices => ⟨known, fun _ knows => knows, voices⟩) ?_
  intro peer scope state records idle found reached ih known voices
  have below : state.next.toNat ≤ limit.toNat := UInt32.le_iff_toNat_le.mp reached
  obtain ⟨more, grows, voices'⟩ := ih (voices.runTick found (by omega))
  exact ⟨more, fun opinion knows => grows opinion (.inl knows), voices'⟩

end Peer

end Lockstep
