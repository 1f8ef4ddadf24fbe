import Lockstep.Peer.Tick
import Mathlib.Tactic.SplitIfs

/-! # Peers on record

A report counts the commands of a tick and does not list them. Here every call that simulates ticks
also answers with what ran in each of them; without the lists the calls are those of the peer.
`Works` says that, whatever a peer is asked to do, it takes in messages and simulates ticks that the
tick limit allows, one after another, so what these two keep is kept by every call.
-/

namespace Lockstep

/-- A simulated tick: the commands that ran, in order, and the report. -/
structure TickRecord where
  commands : List Command
  report : TickReport

namespace Peer

variable {W : Type} [World W]

/-- Simulate the next tick of a scope live, on record. -/
def recordTick (peer : Peer W) (scope : ScopeId) (state : ScopeState) : TickRecord × Peer W :=
  let (report, after) := peer.runTick scope state
  ({ commands := (peer.simulate scope state).commands, report }, after)

/-- Advance a scope, on record. -/
def recordAdvance (peer : Peer W) (scope : ScopeId) :
    Except PeerError (Option TickRecord) × Peer W :=
  let (_, peer) := peer.pump
  match peer.scopes.get? scope with
  | none => (.error (.unknownScope scope), peer)
  | some state =>
    if peer.tickLimit.any (· < state.next) then (.ok none, peer)
    else
      let (record, peer) := peer.recordTick scope state
      (.ok (some record), peer)

/-- Advance scopes one after another, on record. -/
def recordEach (peer : Peer W) : List ScopeId → List TickRecord × Peer W
  | [] => ([], peer)
  | scope :: scopes =>
    let (result, peer) := peer.recordAdvance scope
    let (records, peer) := peer.recordEach scopes
    match result with
    | .ok (some record) => (record :: records, peer)
    | _ => (records, peer)

/-- Advance every scope by a tick, on record. -/
def recordAll (peer : Peer W) : List TickRecord × Peer W :=
  let (_, peer) := peer.pump
  peer.recordEach peer.scopes.keys

/-- Advance a scope for at most so many ticks, on record. -/
def recordWithin (scope : ScopeId) (tick : Tick) :
    Nat → Peer W → Option (Except PeerError Unit × List TickRecord × Peer W)
  | steps, peer =>
    match peer.nextTick? scope with
    | none => some (.error (.unknownScope scope), [], peer)
    | some next =>
      if tick < next then some (.ok (), [], peer)
      else match steps with
        | 0 => if peer.pump.2.tickLimit.any (· < next) then some (.ok (), [], peer.pump.2) else none
        | steps + 1 =>
          match peer.recordAdvance scope with
          | (.error error, peer) => some (.error error, [], peer)
          | (.ok none, peer) => some (.ok (), [], peer)
          | (.ok (some record), peer) =>
            (recordWithin scope tick steps peer).map fun (result, records, final) =>
              (result, record :: records, final)

/-- Advance a scope until its next tick is later than `tick` or the tick limit holds it back, on
record. -/
def recordUntil (peer : Peer W) (scope : ScopeId) (tick : Tick) :
    Option (Except PeerError Unit × List TickRecord × Peer W) :=
  recordWithin scope tick (tick.toNat + 1 - ((peer.nextTick? scope).getD 0).toNat) peer

/-! ## The calls without the lists -/

theorem advance_eq_record (peer : Peer W) (scope : ScopeId) :
    peer.advance scope =
      ((peer.recordAdvance scope).1.map (·.map (·.report)), (peer.recordAdvance scope).2) := by
  simp only [advance, recordAdvance]
  cases peer.pump.2.scopes.get? scope with
  | none => rfl
  | some state =>
    dsimp only
    split <;> rfl

theorem advanceEach_eq_record (peer : Peer W) (scopes : List ScopeId) :
    peer.advanceEach scopes =
      ((peer.recordEach scopes).1.map (·.report), (peer.recordEach scopes).2) := by
  induction scopes generalizing peer with
  | nil => rfl
  | cons scope scopes ih =>
    simp only [advanceEach, recordEach, advance_eq_record, ih]
    rcases (peer.recordAdvance scope).1 with error | _ | record <;> rfl

theorem advanceAll_eq_record (peer : Peer W) :
    peer.advanceAll = (peer.recordAll.1.map (·.report), peer.recordAll.2) :=
  advanceEach_eq_record peer.pump.2 _

theorem runWithin_eq_record (scope : ScopeId) (tick : Tick) (steps : Nat) (peer : Peer W)
    (reports : List TickReport) :
    runWithin scope tick steps peer reports =
      (recordWithin scope tick steps peer).map fun (result, records, final) =>
        (result.map fun _ => reports.reverse ++ records.map (·.report), final) := by
  induction steps generalizing peer reports with
  | zero =>
    rw [runWithin, recordWithin]
    cases peer.nextTick? scope with
    | none => rfl
    | some next =>
      dsimp only
      split
      · simp [Except.map]
      · split <;> simp [Except.map]
  | succ steps ih =>
    rw [runWithin, recordWithin]
    cases peer.nextTick? scope with
    | none => rfl
    | some next =>
      dsimp only
      split
      · simp [Except.map]
      · rw [advance_eq_record]
        rcases peer.recordAdvance scope with ⟨error | _ | record, after⟩
        · rfl
        · simp [Except.map]
        · simp [Except.map, ih, Function.comp_def]

theorem runUntil_eq_record (peer : Peer W) (scope : ScopeId) (tick : Tick) :
    peer.runUntil scope tick = (peer.recordUntil scope tick).map fun (result, records, final) =>
      (result.map fun _ => records.map (·.report), final) :=
  runWithin_eq_record scope tick _ peer []

/-! ## What every call consists of -/

/-- A peer comes to another state by taking in messages and simulating ticks that are not held
back. -/
inductive Works : Peer W → List TickRecord → Peer W → Prop where
  | rest (peer : Peer W) : Works peer [] peer
  | pump {peer final : Peer W} {records : List TickRecord}
      (later : Works peer.pump.2 records final) :
      Works peer records final
  | tick {peer final : Peer W} {scope : ScopeId} {state : ScopeState} {records : List TickRecord}
      (found : peer.pump.2.scopes.get? scope = some state)
      (free : peer.pump.2.tickLimit.any (· < state.next) = false)
      (later : Works (peer.pump.2.recordTick scope state).2 records final) :
      Works peer ((peer.pump.2.recordTick scope state).1 :: records) final

theorem Works.trans {peer middle final : Peer W} {first second : List TickRecord}
    (left : Works peer first middle) (right : Works middle second final) :
    Works peer (first ++ second) final := by
  induction left with
  | rest => exact right
  | pump _ ih => exact .pump (ih right)
  | tick found free _ ih => exact .tick found free (ih right)

/-- The record of an answer, if a tick was simulated. -/
def recordOf {ε : Type} : Except ε (Option TickRecord) → List TickRecord
  | .ok record? => record?.toList
  | .error _ => []

theorem works_recordAdvance (peer : Peer W) (scope : ScopeId) :
    Works peer (recordOf (peer.recordAdvance scope).1) (peer.recordAdvance scope).2 := by
  simp only [recordAdvance]
  cases found : peer.pump.2.scopes.get? scope with
  | none => exact .pump (.rest _)
  | some state =>
    dsimp only
    cases free : peer.pump.2.tickLimit.any (· < state.next) with
    | true => exact .pump (.rest _)
    | false => exact .tick found free (.rest _)

theorem works_recordEach (peer : Peer W) (scopes : List ScopeId) :
    Works peer (peer.recordEach scopes).1 (peer.recordEach scopes).2 := by
  induction scopes generalizing peer with
  | nil => exact .rest _
  | cons scope scopes ih =>
    have step := (works_recordAdvance peer scope).trans (ih (peer.recordAdvance scope).2)
    simp only [recordEach]
    rcases advanced : peer.recordAdvance scope with ⟨error | _ | record, after⟩ <;>
      simpa only [advanced, recordOf, Option.toList, List.nil_append,
        List.singleton_append] using step

theorem works_recordAll (peer : Peer W) : Works peer peer.recordAll.1 peer.recordAll.2 :=
  .pump (works_recordEach _ _)

theorem works_recordWithin {scope : ScopeId} {tick : Tick} {steps : Nat} {peer final : Peer W}
    {records : List TickRecord} {result : Except PeerError Unit}
    (ran : recordWithin scope tick steps peer = some (result, records, final)) :
    Works peer records final := by
  induction steps generalizing peer records with
  | zero =>
    rw [recordWithin] at ran
    cases known : peer.nextTick? scope with
    | none =>
      simp only [known, Option.some.injEq, Prod.mk.injEq] at ran
      obtain ⟨-, rfl, rfl⟩ := ran
      exact .rest _
    | some next =>
      simp only [known] at ran
      split_ifs at ran
      · obtain ⟨-, rfl, rfl⟩ := ran
        exact .rest _
      · obtain ⟨-, rfl, rfl⟩ := ran
        exact .pump (.rest _)
  | succ steps ih =>
    rw [recordWithin] at ran
    cases known : peer.nextTick? scope with
    | none =>
      simp only [known, Option.some.injEq, Prod.mk.injEq] at ran
      obtain ⟨-, rfl, rfl⟩ := ran
      exact .rest _
    | some next =>
      simp only [known] at ran
      split_ifs at ran
      · obtain ⟨-, rfl, rfl⟩ := ran
        exact .rest _
      · have step := works_recordAdvance peer scope
        rcases advanced : peer.recordAdvance scope with ⟨error | _ | record, after⟩ <;>
          simp only [advanced, recordOf, Option.toList] at ran step
        · cases ran
          exact step
        · cases ran
          exact step
        · obtain ⟨⟨_, others, _⟩, later, same⟩ := Option.map_eq_some_iff.mp ran
          cases same
          exact step.trans (ih later)

end Peer

end Lockstep
