import Lockstep.Proofs.Ident
import Lockstep.Proofs.Word
import Lockstep.Random.Generator

/-! # The seeds of scopes

The seed of a scope's stream is the base seed mixed with the word that stands for the scope. Mixing loses
nothing, since its factor is odd and so has an inverse. The words do: the last signed word stands for the
last map that has a wire form and for all maps after it, and these draw from one stream
(`SeededStream.seeds_eq_iff`).
-/

namespace Lockstep

namespace ScopeId

theorem toInt_toWire_map (id : UInt32) :
    (toWire (.map id)).toInt = min id.toNat maxWireMap.toNat := by
  by_cases small : id ≤ maxWireMap
  · have below : id.toNat ≤ maxWireMap.toNat := UInt32.le_iff_toNat_le.mp small
    rw [toWire_map small, UInt32.toInt_toInt32_of_le small]
    omega
  · have above : maxWireMap.toNat < id.toNat := UInt32.lt_iff_toNat_lt.mp (UInt32.not_le.mp small)
    have least : min id maxWireMap = maxWireMap := if_neg small
    have last : maxWireMap.toInt32.toInt = maxWireMap.toNat := by decide
    rw [toWire, least, last]
    omega

/-- Whether the last signed word stands for the scope. -/
def takesLastWord : ScopeId → Bool
  | global => false
  | map id => maxWireMap ≤ id

theorem toWire_global_ne (id : UInt32) : toWire .global ≠ toWire (.map id) := by
  intro same
  have signed := toInt_toWire_map id
  have negative : (toWire .global).toInt = -1 := by decide
  rw [← same, negative] at signed
  omega

/-- Words tell scopes apart, but for those that have the last one in common. -/
theorem toWire_eq_iff (first second : ScopeId) : first.toWire = second.toWire ↔
    first = second ∨ first.takesLastWord = true ∧ second.takesLastWord = true := by
  cases first with
  | global =>
    cases second with
    | global => simp only [true_or]
    | map id => simp [takesLastWord, toWire_global_ne]
  | map id =>
    cases second with
    | global => simp [takesLastWord, (toWire_global_ne id).symm]
    | map id' =>
      rw [← Int32.toInt_inj, toInt_toWire_map, toInt_toWire_map]
      simp only [takesLastWord, decide_eq_true_eq, map.injEq, ← UInt32.toNat_inj,
        UInt32.le_iff_toNat_le]
      omega

end ScopeId

namespace RandomStream

theorem seedFactor_unit : seedFactor * 0xf1de83e19937733d = 1 := by decide

/-- The same base seed, mixed with different words, gives different seeds. -/
theorem scopeSeed_eq_iff (base : UInt64) (first second : ScopeId) :
    scopeSeed base first = scopeSeed base second ↔ first.toWire = second.toWire := by
  have mixing := UInt64.mul_left_injective seedFactor_unit
  have unsigned : Function.Injective Int64.toUInt64 :=
    Function.LeftInverse.injective Int64.toInt64_toUInt64
  constructor
  · intro same
    have products := (UInt64.xor_right_inj base).mp same
    have sums := unsigned (mixing products)
    have wide := (Int64.add_left_inj 2).mp sums
    rw [← Int32.toInt_inj, ← Int32.toInt_toInt64, wide, Int32.toInt_toInt64]
  · intro same
    rw [scopeSeed, same, scopeSeed]

end RandomStream

namespace SeededStream

variable {G : Type} [WordGenerator G]

/-- From one base seed, two scopes get streams of the same seed exactly if they are the same scope or the
last signed word stands for both. So all scopes up to the last one with a wire form have different
seeds. -/
theorem seeds_eq_iff (base : UInt64) (first second : ScopeId) :
    (ofScope base first : SeededStream G).seed = (ofScope base second : SeededStream G).seed ↔
      first = second ∨ first.takesLastWord = true ∧ second.takesLastWord = true :=
  (RandomStream.scopeSeed_eq_iff base first second).trans (ScopeId.toWire_eq_iff first second)

/-- The last map with a wire form and the first one without are two scopes with one seed, and so draw the
same words. -/
theorem last_maps_share_their_seed :
    ScopeId.map 2147483647 ≠ ScopeId.map 2147483648 ∧
      (ofScope 42 (.map 2147483647) : SeededStream RandomStream).seed =
        (ofScope 42 (.map 2147483648) : SeededStream RandomStream).seed := by
  decide

end SeededStream

end Lockstep
