import Lockstep.Ident

/-! # Numbers with a sign

Ids and scopes travel as signed words. Up to the largest signed word an id is the same number with a
sign, so the signed words of the scopes that are representable stand apart from each other and from
the least word.
-/

namespace Lockstep

theorem UInt32.toInt_toInt32_of_le {id : UInt32} (small : id ≤ 0x7fffffff) :
    id.toInt32.toInt = id.toNat := by
  have small : id.toNat ≤ 2147483647 := UInt32.le_iff_toNat_le.mp small
  have signed : id.toInt32.toInt = id.toBitVec.toInt := rfl
  have word : id.toNat = id.toBitVec.toNat := rfl
  rw [BitVec.toInt_eq_toNat_cond] at signed
  split at signed
  · omega
  · omega

theorem UInt32.zero_le_toInt32 {id : UInt32} (small : id ≤ 0x7fffffff) : 0 ≤ id.toInt32 := by
  have signed := UInt32.toInt_toInt32_of_le small
  have nonneg : (0 : Int) ≤ id.toInt32.toInt := by omega
  exact Int32.le_iff_toInt_le.mpr nonneg

theorem Int32.toUInt32_le {raw : Int32} (nonneg : 0 ≤ raw) : raw.toUInt32 ≤ 0x7fffffff := by
  have nonneg : (0 : Int) ≤ raw.toInt := Int32.le_iff_toInt_le.mp nonneg
  have signed : raw.toInt = raw.toBitVec.toInt := rfl
  have word : raw.toUInt32.toNat = raw.toBitVec.toNat := rfl
  have limit : (0x7fffffff : UInt32).toNat = 2147483647 := rfl
  have small := raw.toBitVec.isLt
  rw [BitVec.toInt_eq_toNat_cond] at signed
  rw [UInt32.le_iff_toNat_le]
  split at signed
  · omega
  · omega

theorem Tick.toNat_max (a b : Tick) : (max a b).toNat = max a.toNat b.toNat := by
  by_cases below : a ≤ b
  · have chosen : max a b = b := if_pos below
    have same : a.toNat ≤ b.toNat := UInt32.le_iff_toNat_le.mp below
    rw [chosen, Nat.max_eq_right same]
  · have chosen : max a b = a := if_neg below
    have same : ¬ a.toNat ≤ b.toNat := fun other => below (UInt32.le_iff_toNat_le.mpr other)
    rw [chosen]
    omega

theorem Tick.max_le {a b tick : Tick} (first : a ≤ tick) (second : b ≤ tick) : max a b ≤ tick := by
  rw [UInt32.le_iff_toNat_le] at first second
  rw [UInt32.le_iff_toNat_le, Tick.toNat_max]
  exact Nat.max_le.mpr ⟨first, second⟩

theorem Tick.le_max_left (a b : Tick) : a ≤ max a b := by
  rw [UInt32.le_iff_toNat_le, Tick.toNat_max]
  exact Nat.le_max_left _ _

theorem Tick.le_max_right (a b : Tick) : b ≤ max a b := by
  rw [UInt32.le_iff_toNat_le, Tick.toNat_max]
  exact Nat.le_max_right _ _

theorem Tick.le_next (tick : Tick) : tick ≤ tick.next :=
  UInt32.le_iff_toNat_le.mpr (Tick.le_toNat_next tick)

theorem Tick.next_le_of_lt {tick later : Tick} (below : tick < later) : tick.next ≤ later := by
  have step : tick.toNat < later.toNat := UInt32.lt_iff_toNat_lt.mp below
  have bound : later.toNat < UInt32.size := later.toNat_lt
  rw [UInt32.le_iff_toNat_le, Tick.toNat_next (by omega)]
  exact step

namespace ScopeId

theorem toWire_map {id : UInt32} (small : id ≤ maxWireMap) : toWire (.map id) = id.toInt32 := by
  have least : min id maxWireMap = id := if_pos small
  rw [toWire, least]

theorem ofWire?_toWire {scope : ScopeId} (representable : scope.isRepresentable = true) :
    ofWire? scope.toWire = some scope := by
  cases scope with
  | global => rfl
  | map id =>
    have small : id ≤ maxWireMap := of_decide_eq_true representable
    have nonneg := UInt32.zero_le_toInt32 small
    have apart : id.toInt32 ≠ -1 := by
      intro same
      rw [same] at nonneg
      exact absurd nonneg (by decide)
    rw [toWire_map small, ofWire?, if_neg apart, if_pos nonneg, UInt32.toUInt32_toInt32]

/-- Scopes that are read are those with a wire form of their own. -/
theorem ofWire?_eq_some {raw : Int32} {scope : ScopeId} (read : ofWire? raw = some scope) :
    scope.isRepresentable = true ∧ raw = scope.toWire := by
  unfold ofWire? at read
  split at read
  next global =>
    cases read
    exact ⟨rfl, global⟩
  next =>
    split at read
    next nonneg =>
      cases read
      have small : raw.toUInt32 ≤ maxWireMap := Int32.toUInt32_le nonneg
      exact ⟨decide_eq_true small, by rw [toWire_map small, Int32.toInt32_toUInt32]⟩
    next => cases read

theorem toWire_ne_minValue {scope : ScopeId} (representable : scope.isRepresentable = true) :
    scope.toWire ≠ Int32.minValue := by
  intro same
  have back := ofWire?_toWire representable
  have nothing : ofWire? Int32.minValue = none := by decide
  rw [same, nothing] at back
  cases back

end ScopeId

end Lockstep
