import Lockstep.Proofs.Drift.Exchange

/-! # Sampling alongside each other

Two peers that sample a scope from the same tick on in windows of one length part in an exchange of
their opinions exactly where their samples do (`Alongside.names_first`).
-/

namespace Lockstep

/-- Two peers that sample one scope in windows of one length, from the same tick on. -/
structure Alongside (scope : ScopeId) (seed : UInt64) (start length : Nat)
    (ticks : Bool → List (List StreamState)) (opinions : Bool → List DriftOpinion) : Prop where
  positive : 0 < length
  inside : ∀ side, start + (ticks side).length < UInt32.size
  early : ∀ side, ∀ states ∈ ticks side, ∀ state ∈ states, state.IsEarly seed
  windows : ∀ side, ∃ closed, closed * length ≤ (ticks side).length ∧
    opinions side = (List.range closed).map (opinionOn scope start length (ticks side))

namespace Alongside

variable {scope : ScopeId} {seed : UInt64} {start length : Nat} {ticks : Bool → List (List StreamState)}
  {opinions : Bool → List DriftOpinion} {side : Bool} {place : Nat} {opinion : DriftOpinion}

/-- An opinion is on a window that is closed. -/
theorem eq_opinionOn (alongside : Alongside scope seed start length ticks opinions)
    (here : (opinions side)[place]? = some opinion) :
    opinion = opinionOn scope start length (ticks side) place ∧
      (place + 1) * length ≤ (ticks side).length := by
  obtain ⟨closed, whole, same⟩ := alongside.windows side
  rw [same, List.getElem?_map, Option.map_eq_some_iff] at here
  obtain ⟨index, found, rfl⟩ := here
  obtain ⟨below, rfl⟩ := List.getElem?_eq_some_iff.mp found
  rw [List.length_range] at below
  rw [List.getElem_range]
  exact ⟨rfl, Nat.le_trans (Nat.mul_le_mul_right length below) whole⟩

theorem strictMono (alongside : Alongside scope seed start length ticks opinions) :
    StrictMono fun place => start + (place + 1) * length - 1 := by
  refine strictMono_nat_of_lt_succ fun place => ?_
  have positive := alongside.positive
  rw [Nat.succ_mul, Nat.succ_mul, Nat.succ_mul]
  omega

theorem timed (alongside : Alongside scope seed start length ticks opinions) (side : Bool) :
    DriftOpinion.Timed (fun place => start + (place + 1) * length - 1) (opinions side) := by
  intro place opinion here
  obtain ⟨rfl, whole⟩ := alongside.eq_opinionOn here
  have inside := alongside.inside side
  exact UInt32.toNat_ofNat_of_lt' (by omega)

theorem scope_eq (alongside : Alongside scope seed start length ticks opinions) (side : Bool) :
    ∀ opinion ∈ opinions side, opinion.scope = scope := by
  intro opinion member
  obtain ⟨place, here⟩ := List.mem_iff_getElem?.mp member
  rw [(alongside.eq_opinionOn here).1]
  rfl

/-- Opinions on a window up to whose end the samples agree do not part. -/
theorem partsAt_none (alongside : Alongside scope seed start length ticks opinions)
    (same : ∀ index < (place + 1) * length, (ticks true)[index]? = (ticks false)[index]?) :
    Exchange.PartsAt opinions place none := by
  intro side first second here there
  obtain ⟨rfl, -⟩ := alongside.eq_opinionOn here
  obtain ⟨rfl, -⟩ := alongside.eq_opinionOn there
  have alike : opinionOn scope start length (ticks side) place =
      opinionOn scope start length (ticks !side) place := by
    cases side with
    | true => exact opinionOn_congr scope start same
    | false => exact (opinionOn_congr scope start same).symm
  rw [alike]
  exact DriftOpinion.firstDifferenceOf_self _

/-- Opinions on the window of the first tick in which the samples differ part at this tick. -/
theorem partsAt_some (alongside : Alongside scope seed start length ticks opinions) {index : Nat}
    (within : ∀ side, index < (ticks side).length)
    (same : ∀ earlier < index, (ticks true)[earlier]? = (ticks false)[earlier]?)
    (differ : (ticks true)[index]? ≠ (ticks false)[index]?) :
    Exchange.PartsAt opinions (index / length) (some (UInt32.ofNat (start + index))) := by
  intro side first second here there
  obtain ⟨rfl, -⟩ := alongside.eq_opinionOn here
  obtain ⟨rfl, -⟩ := alongside.eq_opinionOn there
  have place : index / length * length + index % length = index := Nat.div_add_mod' index length
  have found (side : Bool) : (ticks side)[index]? = some ((ticks side).get ⟨index, within side⟩) :=
    List.getElem?_eq_getElem (within side)
  have early (side : Bool) : ∀ state ∈ (ticks side).get ⟨index, within side⟩, state.IsEarly seed :=
    alongside.early side _ (List.getElem_mem (within side))
  have apart : (ticks side).get ⟨index, within side⟩ ≠ (ticks !side).get ⟨index, within !side⟩ := by
    intro equal
    rw [found, found] at differ
    cases side with
    | true => exact differ (congrArg some equal)
    | false => exact differ (congrArg some equal.symm)
  have before : ∀ earlier < index, (ticks side)[earlier]? = (ticks !side)[earlier]? := by
    cases side with
    | true => exact same
    | false => exact fun earlier below => (same earlier below).symm
  have parts := firstDifference_opinionOn scope (index / length) (early side) (early !side)
    (alongside.inside side) (alongside.inside !side) (Nat.mod_lt index alongside.positive)
    (by rwa [place]) (by rw [place]; exact found side) (by rw [place]; exact found !side) apart
  rwa [place] at parts

/-- Nobody is named while the samples of the windows that both peers have come to agree; otherwise
somebody is named at the first tick in which they differ. -/
theorem names_first (alongside : Alongside scope seed start length ticks opinions) {history : Nat}
    {counts : Bool → Nat} {submissions : List (Bool × DriftOpinion)}
    (exchange : Exchange history opinions counts submissions) (ids : Bool → PeerId)
    {arbiter : DriftArbiter} (room : arbiter.history = history) (unheard : arbiter.verdicts scope = {}) :
    let answers := (arbiter.weigh (submissions.map fun submission => (ids submission.1, submission.2))).1
    ((∀ index, (∀ side, index < counts side * length) →
        (ticks true)[index]? = (ticks false)[index]?) → ∀ answer ∈ answers, answer = none) ∧
    ∀ index, (∀ side, index < counts side * length) →
      (∀ earlier < index, (ticks true)[earlier]? = (ticks false)[earlier]?) →
      (ticks true)[index]? ≠ (ticks false)[index]? →
      ∃ side, answers.findSome? id = some ⟨scope, UInt32.ofNat (start + index), ids side⟩ := by
  obtain ⟨-, silent, naming⟩ := exchange.names_first alongside.strictMono alongside.timed
    alongside.scope_eq ids room unheard
  refine ⟨fun same => (silent fun place both => ?_).1, fun index closed same differ => ?_⟩
  · refine alongside.partsAt_none fun index before => same index fun side => ?_
    exact Nat.lt_of_lt_of_le before (Nat.mul_le_mul_right length (both side))
  · have come (side : Bool) : index / length < counts side :=
      (Nat.div_lt_iff_lt_mul alongside.positive).mpr (closed side)
    have within (side : Bool) : index < (ticks side).length := by
      obtain ⟨number, whole, opinions⟩ := alongside.windows side
      have bound := exchange.counts_le side
      rw [opinions, List.length_map, List.length_range] at bound
      exact Nat.lt_of_lt_of_le (closed side) (Nat.le_trans (Nat.mul_le_mul_right length bound) whole)
    refine naming _ _ come (fun earlier before => alongside.partsAt_none fun tick inside => same tick ?_)
      (alongside.partsAt_some within same differ)
    exact Nat.lt_of_lt_of_le inside (Nat.le_trans (Nat.mul_le_mul_right length before)
      (Nat.div_mul_le_self index length))

end Alongside

end Lockstep
