import Lockstep.Drift.Arbiter
import Lockstep.Proofs.Drift.Difference
import Lockstep.Proofs.Format.Reading
import Lockstep.Proofs.Ident
import Lockstep.Proofs.Success

/-! # Opinions that agree

An opinion comes back from its bytes if its scope has an exact wire form. An arbiter that is only
given opinions of which no two differ on one tick of one scope never names a peer: whatever it keeps
to compare others with is one of them.
-/

namespace Lockstep

open Decoder

/-! ## Reading opinions back -/

theorem reads_scope {scope : ScopeId} (representable : scope.isRepresentable = true) :
    Reads Decoder.scope (.ofInt32 scope.toWire) scope := by
  apply (reads_int32 scope.toWire).bind_last
  rw [ScopeId.ofWire?_toWire representable]
  exact .pure scope

theorem DriftSample.reads (sample : DriftSample) : Reads DriftSample.decode sample.encode sample :=
  (reads_uint32 sample.tick).bind ((reads_uint64 sample.value).bind_last (.pure sample))

namespace DriftOpinion

theorem decode_encode {opinion : DriftOpinion} {bytes : Bytes}
    (representable : opinion.scope.isRepresentable = true) (written : opinion.encode = .ok bytes) :
    decode bytes = .ok opinion := by
  obtain ⟨count, counted, written⟩ := bind_eq_ok.mp written
  cases written
  have samples : Reads (Decoder.replicate opinion.samples.length DriftSample.decode)
      (opinion.samples.flatMap DriftSample.encode) opinion.samples :=
    (reads_replicate fun sample _ => sample.reads).congr (List.map_id _)
  apply Reads.decode
  exact (reads_scope representable).bind ((reads_uint32 opinion.tick).bind
    ((reads_count counted).bind (samples.bind_last (.pure opinion))))

end DriftOpinion

/-! ## Arbiters -/

/-- No two opinions differ on one tick of one scope. -/
def Coherent (known : DriftOpinion → Prop) : Prop :=
  ∀ first second, known first → known second → first.scope = second.scope →
    first.tick = second.tick → first = second

/-- One more opinion, on a tick of a scope that the others are not on. -/
theorem Coherent.extend {known : DriftOpinion → Prop} {new? : Option DriftOpinion}
    (coherent : Coherent known) (apart : ∀ old new, known old → new? = some new →
      old.scope = new.scope → old.tick ≠ new.tick) :
    Coherent fun opinion => known opinion ∨ new? = some opinion := by
  rintro first second (knows | new) (knows' | new') scopes ticks
  · exact coherent first second knows knows' scopes ticks
  · exact absurd ticks (apart first second knows new' scopes)
  · exact absurd ticks.symm (apart second first knows' new scopes.symm)
  · exact Option.some.inj (new.symm.trans new')

/-- Whatever is kept of a scope are known opinions, each on its tick. -/
def ScopeVerdicts.Keeps (known : DriftOpinion → Prop) (scope : ScopeId) (verdicts : ScopeVerdicts) :
    Prop :=
  ∀ tick reference, verdicts.references.get? tick = some reference →
    known reference ∧ reference.scope = scope ∧ reference.tick = tick

namespace ScopeVerdicts

variable {known : DriftOpinion → Prop} {verdicts : ScopeVerdicts} {opinion : DriftOpinion}
  {scope : ScopeId}

theorem Keeps.evict (keeps : verdicts.Keeps known scope) (history : Nat) :
    (verdicts.evict history).Keeps known scope := by
  unfold ScopeVerdicts.evict
  simp only
  split
  next first _ _ =>
    split
    · exact keeps
    · intro tick reference found
      rw [SortedMap.get?_filter, Option.filter_eq_some_iff] at found
      exact keeps tick reference found.1
  next => exact keeps

/-- A known opinion may be kept. -/
theorem Keeps.weigh (keeps : verdicts.Keeps known opinion.scope) (knows : known opinion) (history : Nat)
    (peer : PeerId) : (verdicts.submit history peer opinion).2.Keeps known opinion.scope := by
  rw [ScopeVerdicts.submit]
  split
  · exact keeps
  · split
    next fresh =>
      refine Keeps.evict (fun tick reference found => ?_) history
      rcases SortedMap.get?_insert_eq_some.mp found with ⟨rfl, rfl⟩ | ⟨_, found⟩
      · exact ⟨knows, rfl, rfl⟩
      · exact keeps tick reference found
    next reference found =>
      cases reference.firstDifference opinion with
      | none => exact keeps
      | some tick =>
        dsimp only
        split
        · exact keeps
        · exact keeps

/-- A known opinion agrees with what is kept, and may be kept. -/
theorem Keeps.submit (coherent : Coherent known) (keeps : verdicts.Keeps known opinion.scope)
    (knows : known opinion) (history : Nat) (peer : PeerId) :
    (verdicts.submit history peer opinion).1 = none ∧
      (verdicts.submit history peer opinion).2.Keeps known opinion.scope := by
  refine ⟨?_, keeps.weigh knows history peer⟩
  rw [ScopeVerdicts.submit]
  split
  · rfl
  · split
    next fresh => rfl
    next reference found =>
      obtain ⟨knows', scopes, ticks⟩ := keeps opinion.tick reference found
      have agrees : reference.firstDifference opinion = none := by
        rw [coherent reference opinion knows' knows scopes ticks]
        exact DriftOpinion.firstDifferenceOf_self opinion.samples
      rw [agrees]

end ScopeVerdicts

namespace DriftArbiter

/-- Whatever an arbiter keeps are known opinions. -/
def Keeps (known : DriftOpinion → Prop) (arbiter : DriftArbiter) : Prop :=
  ∀ scope, (arbiter.verdicts scope).Keeps known scope

variable {known : DriftOpinion → Prop} {arbiter : DriftArbiter} {opinion : DriftOpinion}

theorem keeps_new (history : Nat) : (new history).Keeps known := by
  intro scope tick reference impossible
  cases impossible

theorem Keeps.mono {more : DriftOpinion → Prop} (keeps : arbiter.Keeps known)
    (grows : ∀ opinion, known opinion → more opinion) : arbiter.Keeps more := by
  intro scope tick reference found
  obtain ⟨knows, same⟩ := keeps scope tick reference found
  exact ⟨grows reference knows, same⟩

/-- Weighing an opinion changes what is remembered of its scope as the opinion says. -/
theorem verdicts_submit_self (arbiter : DriftArbiter) (peer : PeerId) (opinion : DriftOpinion) :
    (arbiter.submit peer opinion).2.verdicts opinion.scope =
      ((arbiter.verdicts opinion.scope).submit arbiter.history peer opinion).2 := by
  rw [DriftArbiter.submit, verdicts, SortedMap.get?_insert_self, Option.getD_some]

/-- An arbiter that is given known opinions keeps no others. -/
theorem Keeps.weigh (keeps : arbiter.Keeps known) (knows : known opinion) (peer : PeerId) :
    (arbiter.submit peer opinion).2.Keeps known := by
  intro scope
  by_cases same : scope = opinion.scope
  · subst same
    rw [verdicts_submit_self]
    exact (keeps opinion.scope).weigh knows arbiter.history peer
  · have elsewhere : (arbiter.submit peer opinion).2.verdicts scope = arbiter.verdicts scope := by
      rw [DriftArbiter.submit, verdicts, SortedMap.get?_insert_of_ne _ _ same, verdicts]
    rw [elsewhere]
    exact keeps scope

/-- An arbiter that is given known opinions names nobody. -/
theorem Keeps.submit (coherent : Coherent known) (keeps : arbiter.Keeps known)
    (knows : known opinion) (peer : PeerId) :
    (arbiter.submit peer opinion).1 = none ∧ (arbiter.submit peer opinion).2.Keeps known :=
  ⟨((keeps opinion.scope).submit coherent knows arbiter.history peer).1, keeps.weigh knows peer⟩

end DriftArbiter

end Lockstep
