import Lockstep.Drift.Opinion
import Mathlib.Order.Bounds.Defs

/-! # Where opinions part

Opinions are compared place by place, and what is told of the first place at which they differ is a tick.
If the samples of both are in the order of their ticks, this is the earliest tick for which the two list
different values, whether a value is another one or one side has more of them
(`DriftOpinion.parts_at_earliest_tick`). What carries this is that before the first place at which they
differ both list the same, and behind it neither goes back to an earlier tick.
-/

namespace Lockstep.DriftOpinion

/-- Samples are in the order of their ticks. -/
def Chronological (samples : List DriftSample) : Prop :=
  samples.Pairwise fun earlier later => earlier.tick ≤ later.tick

instance (samples : List DriftSample) : Decidable (Chronological samples) :=
  inferInstanceAs (Decidable (samples.Pairwise _))

/-- The values that samples have for a tick, in order. -/
def valuesAt (samples : List DriftSample) (tick : Tick) : List UInt64 :=
  (samples.filter (·.tick = tick)).map (·.value)

variable {first second samples : List DriftSample} {sample : DriftSample} {tick bound : Tick}

theorem Chronological.le_tick (ordered : Chronological (sample :: samples)) :
    ∀ later ∈ sample :: samples, sample.tick ≤ later.tick :=
  List.forall_mem_cons.mpr ⟨UInt32.le_refl _, (List.pairwise_cons.mp ordered).1⟩

theorem Chronological.tail (ordered : Chronological (sample :: samples)) : Chronological samples :=
  (List.pairwise_cons.mp ordered).2

/-! ## Values -/

theorem valuesAt_cons_self (sample : DriftSample) (samples : List DriftSample) :
    valuesAt (sample :: samples) sample.tick = sample.value :: valuesAt samples sample.tick := by
  simp [valuesAt]

theorem valuesAt_cons_of_ne (apart : sample.tick ≠ tick) :
    valuesAt (sample :: samples) tick = valuesAt samples tick := by
  simp [valuesAt, apart]

theorem valuesAt_append (first second : List DriftSample) (tick : Tick) :
    valuesAt (first ++ second) tick = valuesAt first tick ++ valuesAt second tick := by
  simp [valuesAt]

/-- Before its first sample a list has no values. -/
theorem valuesAt_eq_nil (later : ∀ sample ∈ samples, tick < sample.tick) :
    valuesAt samples tick = [] := by
  have none : samples.filter (·.tick = tick) = [] := by
    refine List.filter_eq_nil_iff.mpr fun sample member same => ?_
    have after := later sample member
    rw [of_decide_eq_true same] at after
    exact UInt32.lt_irrefl tick after
  rw [valuesAt, none, List.map_nil]

/-- A first sample that is common to two lists makes no difference. -/
theorem valuesAt_cons_ne_iff : valuesAt (sample :: first) tick ≠ valuesAt (sample :: second) tick ↔
    valuesAt first tick ≠ valuesAt second tick := by
  by_cases here : sample.tick = tick
  · subst here
    rw [valuesAt_cons_self, valuesAt_cons_self, Ne, List.cons_inj_right]
  · rw [valuesAt_cons_of_ne here, valuesAt_cons_of_ne here]

/-- Values differ from the first samples on. -/
theorem le_of_valuesAt_ne (late : ∀ sample ∈ first, bound ≤ sample.tick)
    (late' : ∀ sample ∈ second, bound ≤ sample.tick)
    (differ : valuesAt first tick ≠ valuesAt second tick) : bound ≤ tick := by
  refine UInt32.not_lt.mp fun before => differ ?_
  have none : valuesAt first tick = [] :=
    valuesAt_eq_nil fun sample member => UInt32.lt_of_lt_of_le before (late sample member)
  have none' : valuesAt second tick = [] :=
    valuesAt_eq_nil fun sample member => UInt32.lt_of_lt_of_le before (late' sample member)
  exact none.trans none'.symm

/-- A sample before all those of another list is missing there. -/
theorem valuesAt_ne_of_lt (later : ∀ other ∈ second, sample.tick < other.tick) :
    valuesAt (sample :: samples) sample.tick ≠ valuesAt second sample.tick := by
  rw [valuesAt_cons_self, valuesAt_eq_nil later]
  exact List.cons_ne_nil _ _

/-! ## The earliest difference -/

theorem firstDifferenceOf_eq_none_iff : firstDifferenceOf first second = none ↔ first = second := by
  induction first generalizing second with
  | nil => cases second <;> simp [firstDifferenceOf]
  | cons a as ih =>
    cases second with
    | nil => simp [firstDifferenceOf]
    | cons b bs => by_cases same : a = b <;> simp [firstDifferenceOf, same, ih]

theorem firstDifferenceOf_self (samples : List DriftSample) : firstDifferenceOf samples samples = none :=
  firstDifferenceOf_eq_none_iff.mpr rfl

theorem firstDifferenceOf_comm (first second : List DriftSample) :
    firstDifferenceOf first second = firstDifferenceOf second first := by
  induction first generalizing second with
  | nil => cases second <;> rfl
  | cons a as ih =>
    cases second with
    | nil => rfl
    | cons b bs =>
      have ticks : min a.tick b.tick = min b.tick a.tick := Std.Commutative.comm _ _
      by_cases same : a = b
      · rw [firstDifferenceOf, firstDifferenceOf, if_pos same, if_pos same.symm, ih]
      · rw [firstDifferenceOf, firstDifferenceOf, if_neg same, if_neg (Ne.symm same), ticks]

/-- Against a list that has ended, the next sample is the earliest difference. -/
theorem isLeast_of_ended (ordered : Chronological (sample :: samples)) :
    IsLeast {tick | valuesAt (sample :: samples) tick ≠ valuesAt [] tick} sample.tick :=
  ⟨valuesAt_ne_of_lt (List.forall_mem_nil _),
    fun _ differ => le_of_valuesAt_ne ordered.le_tick (List.forall_mem_nil _) differ⟩

/-- Where the first samples differ, the one that does not come later is the earliest difference. -/
theorem isLeast_of_heads_ne {a b : DriftSample} (ordered : Chronological (a :: first))
    (ordered' : Chronological (b :: second)) (apart : a ≠ b) (before : a.tick ≤ b.tick) :
    IsLeast {tick | valuesAt (a :: first) tick ≠ valuesAt (b :: second) tick} a.tick := by
  have late' (sample) (member : sample ∈ b :: second) : a.tick ≤ sample.tick :=
    UInt32.le_trans before (ordered'.le_tick sample member)
  refine ⟨?_, fun tick differ => le_of_valuesAt_ne ordered.le_tick late' differ⟩
  by_cases same : a.tick = b.tick
  · have values : a.value ≠ b.value := fun equal => apart (congr (congrArg DriftSample.mk same) equal)
    have there : valuesAt (b :: second) a.tick = b.value :: valuesAt second a.tick :=
      same ▸ valuesAt_cons_self b second
    change valuesAt (a :: first) a.tick ≠ valuesAt (b :: second) a.tick
    rw [valuesAt_cons_self, there]
    exact fun equal => values (List.cons.inj equal).1
  · have before : a.tick < b.tick := UInt32.lt_of_le_of_ne before same
    exact valuesAt_ne_of_lt fun other member =>
      UInt32.lt_of_lt_of_le before (ordered'.le_tick other member)

theorem isLeast_firstDifferenceOf (ordered : Chronological first) (ordered' : Chronological second)
    (parted : firstDifferenceOf first second = some tick) :
    IsLeast {tick | valuesAt first tick ≠ valuesAt second tick} tick := by
  induction first generalizing second with
  | nil =>
    cases second with
    | nil => nomatch parted
    | cons b bs =>
      obtain rfl : b.tick = tick := Option.some.inj parted
      simpa only [ne_comm] using isLeast_of_ended ordered'
  | cons a as ih =>
    cases second with
    | nil =>
      obtain rfl : a.tick = tick := Option.some.inj parted
      exact isLeast_of_ended ordered
    | cons b bs =>
      rw [firstDifferenceOf] at parted
      by_cases same : a = b
      · subst same
        rw [if_pos rfl] at parted
        simpa only [valuesAt_cons_ne_iff] using ih ordered.tail ordered'.tail parted
      · rw [if_neg same] at parted
        obtain rfl : min a.tick b.tick = tick := Option.some.inj parted
        rcases UInt32.le_total a.tick b.tick with before | after
        · have least : min a.tick b.tick = a.tick := if_pos before
          rw [least]
          exact isLeast_of_heads_ne ordered ordered' same before
        · have least : min a.tick b.tick = b.tick := (Std.Commutative.comm _ _).trans (if_pos after)
          rw [least]
          simpa only [ne_comm] using isLeast_of_heads_ne ordered' ordered (Ne.symm same) after

theorem firstDifferenceOf_eq_some_iff (ordered : Chronological first) (ordered' : Chronological second) :
    firstDifferenceOf first second = some tick ↔
      IsLeast {tick | valuesAt first tick ≠ valuesAt second tick} tick := by
  refine ⟨isLeast_firstDifferenceOf ordered ordered', fun least => ?_⟩
  cases parted : firstDifferenceOf first second with
  | none =>
    have same := firstDifferenceOf_eq_none_iff.mp parted
    exact absurd (by rw [same]) least.1
  | some other =>
    have least' := isLeast_firstDifferenceOf ordered ordered' parted
    exact congrArg some (UInt32.le_antisymm (least'.2 least.1) (least.2 least'.1))

/-- Of opinions in the order of their ticks, those with equal samples do not part; others part at the
earliest tick for which the values that the one lists are not those that the other lists. It does not
matter which of them is compared with which. -/
theorem parts_at_earliest_tick (first second : DriftOpinion) (ordered : Chronological first.samples)
    (ordered' : Chronological second.samples) :
    (first.firstDifference second = none ↔ first.samples = second.samples) ∧
      (∀ tick, first.firstDifference second = some tick ↔
        IsLeast {tick | valuesAt first.samples tick ≠ valuesAt second.samples tick} tick) ∧
      second.firstDifference first = first.firstDifference second :=
  ⟨firstDifferenceOf_eq_none_iff, fun _ => firstDifferenceOf_eq_some_iff ordered ordered',
    firstDifferenceOf_comm _ _⟩

/-- An opinion with two samples of tick 8, and one that lacks the second of them and so has the sample of
tick 9 in its place. -/
theorem missing_sample_parts_at_its_tick :
    let full : DriftOpinion := ⟨.map 0, 9, [⟨7, 1⟩, ⟨8, 2⟩, ⟨8, 3⟩, ⟨9, 4⟩]⟩
    let lacking : DriftOpinion := ⟨.map 0, 9, [⟨7, 1⟩, ⟨8, 2⟩, ⟨9, 4⟩]⟩
    Chronological full.samples ∧ Chronological lacking.samples ∧
      IsLeast {tick | valuesAt full.samples tick ≠ valuesAt lacking.samples tick} 8 ∧
      lacking.firstDifference full = some 8 := by
  intro full lacking
  have ordered : Chronological full.samples := by decide
  have ordered' : Chronological lacking.samples := by decide
  obtain ⟨-, least, same⟩ := parts_at_earliest_tick full lacking ordered ordered'
  exact ⟨ordered, ordered', (least 8).mp rfl, same.trans rfl⟩

end Lockstep.DriftOpinion
