import Lockstep.Proofs.Word
import Lockstep.Random.Generator
import Mathlib.Algebra.Order.Floor.Div
import Mathlib.Data.FinEnum
import Mathlib.Order.Interval.Finset.Nat

/-! # Draws from a range

A word `w` is scaled into a range of `s` numbers by going `w * s / 2 ^ 32` numbers up from its lower end.
In words no step of this overflows (`RandomStream.scale?_eq`). The words that go up by `k` are those from
`k * 2 ^ 32 / s` up to but not including `(k + 1) * 2 ^ 32 / s`, both rounded up, so that all numbers of
the range have the same share of the words, give or take one.
-/

namespace Lockstep

/-! ## Rounding up -/

/-- What lies between two quotients that are rounded up is itself a quotient, rounded one way or the
other. -/
theorem ceilDiv_add_sub_ceilDiv (m n : Nat) {s : Nat} (positive : 0 < s) :
    (m + n) ⌈/⌉ s - m ⌈/⌉ s = n / s ∨ (m + n) ⌈/⌉ s - m ⌈/⌉ s = n ⌈/⌉ s := by
  have least : m ⌈/⌉ s + n / s ≤ (m + n) ⌈/⌉ s := by
    rw [Nat.ceilDiv_eq_add_pred_div, Nat.ceilDiv_eq_add_pred_div]
    exact Nat.div_add_div_le_add_div.trans (Nat.div_le_div_right (by omega))
  have most : (m + n) ⌈/⌉ s ≤ m ⌈/⌉ s + n ⌈/⌉ s := by
    rw [ceilDiv_le_iff_le_mul positive, Nat.mul_add]
    exact Nat.add_le_add (le_smul_ceilDiv positive) (le_smul_ceilDiv positive)
  have close : n ⌈/⌉ s ≤ n / s + 1 := by
    rw [Nat.ceilDiv_eq_add_pred_div, ← Nat.add_div_right n positive]
    exact Nat.div_le_div_right (Nat.sub_le _ _)
  omega

/-- A quotient of multiples has a value on an interval. -/
theorem mul_div_eq_iff {n s k place : Nat} (positive : 0 < s) (stretch : 0 < n) :
    place * s / n = k ↔ k * n ⌈/⌉ s ≤ place ∧ place < (k + 1) * n ⌈/⌉ s := by
  rw [Nat.div_eq_iff stretch, ceilDiv_le_iff_le_mul positive, lt_iff_not_ge,
    ceilDiv_le_iff_le_mul positive, Nat.add_mul, Nat.one_mul, Nat.mul_comm s place]
  omega

namespace RandomStream

variable {lo hi value : UInt32}

/-! ## Scaling -/

/-- Scaling as it is done in words, step by step: the span of the range, its product with the word in twice
the width, the upper half of the product, and the sum with the lower end. -/
def scale? (lo hi word : UInt32) : Option UInt32 := do
  let span ← UInt32.sub? hi lo
  let product ← UInt64.mul? word.toUInt64 span.toUInt64
  let place ← UInt64.toUInt32? (product >>> 32)
  UInt32.add? lo place

/-- The words that are scaled to a value. -/
def wordsFor (lo hi value : UInt32) : Finset UInt32 :=
  Finset.univ.filter fun word => scale lo hi word = value

theorem span_pos (below : lo < hi) : 0 < hi.toNat - lo.toNat :=
  Nat.sub_pos_of_lt (UInt32.lt_iff_toNat_lt.mp below)

/-- No word takes the lower end as far as the upper one. -/
theorem lo_add_part_lt (below : lo < hi) (word : UInt32) :
    lo.toNat + word.toNat * (hi.toNat - lo.toNat) / UInt32.size < hi.toNat := by
  have part : word.toNat * (hi.toNat - lo.toNat) / UInt32.size < hi.toNat - lo.toNat := by
    apply Nat.div_lt_of_lt_mul
    exact Nat.mul_lt_mul_of_pos_right word.toNat_lt (span_pos below)
  exact Nat.add_lt_of_lt_sub' part

theorem toNat_scale (below : lo < hi) (word : UInt32) : (scale lo hi word).toNat =
    lo.toNat + word.toNat * (hi.toNat - lo.toNat) / UInt32.size := by
  have bound : hi.toNat < UInt32.size := hi.toNat_lt
  have inside := lo_add_part_lt below word
  rw [scale, UInt32.toNat_add, UInt32.toNat_ofNat_of_lt' (by omega)]
  exact Nat.mod_eq_of_lt (show _ < UInt32.size by omega)

/-- In words, scaling does not overflow anywhere. -/
theorem scale?_eq (below : lo < hi) (word : UInt32) : scale? lo hi word = some (scale lo hi word) := by
  have bound : hi.toNat < UInt32.size := hi.toNat_lt
  have inside := lo_add_part_lt below word
  have span : UInt32.sub? hi lo = some (hi - lo) := if_pos (UInt32.le_of_lt below)
  have width : (hi - lo).toNat = hi.toNat - lo.toNat :=
    UInt32.toNat_sub_of_le _ _ (UInt32.le_of_lt below)
  simp only [scale?, span, Option.bind_eq_bind, Option.bind_some, UInt32.mul?_toUInt64,
    UInt32.toUInt32?_upper, width]
  apply if_pos
  rw [UInt32.toNat_ofNat_of_lt' (by omega)]
  omega

theorem mem_wordsFor (below : lo < hi) (least : lo ≤ value) (word : UInt32) : word ∈ wordsFor lo hi value ↔
    word.toNat * (hi.toNat - lo.toNat) / UInt32.size = value.toNat - lo.toNat := by
  have least : lo.toNat ≤ value.toNat := UInt32.le_iff_toNat_le.mp least
  rw [wordsFor, Finset.mem_filter_univ, ← UInt32.toNat_inj, toNat_scale below]
  omega

/-- The words for a value are an interval. -/
theorem image_wordsFor (below : lo < hi) (least : lo ≤ value) (most : value < hi) :
    (wordsFor lo hi value).image UInt32.toNat =
      Finset.Ico ((value.toNat - lo.toNat) * UInt32.size ⌈/⌉ (hi.toNat - lo.toNat))
        ((value.toNat - lo.toNat + 1) * UInt32.size ⌈/⌉ (hi.toNat - lo.toNat)) := by
  have positive := span_pos below
  have least' : lo.toNat ≤ value.toNat := UInt32.le_iff_toNat_le.mp least
  have most' : value.toNat < hi.toNat := UInt32.lt_iff_toNat_lt.mp most
  have inside : (value.toNat - lo.toNat + 1) * UInt32.size ⌈/⌉ (hi.toNat - lo.toNat) ≤ UInt32.size := by
    rw [ceilDiv_le_iff_le_mul positive]
    apply Nat.mul_le_mul_right
    omega
  ext place
  rw [Finset.mem_image, Finset.mem_Ico, ← mul_div_eq_iff positive (by decide)]
  constructor
  · rintro ⟨word, member, rfl⟩
    exact (mem_wordsFor below least word).mp member
  · intro part
    have small : place < UInt32.size :=
      Nat.lt_of_lt_of_le ((mul_div_eq_iff positive (by decide)).mp part).2 inside
    refine ⟨UInt32.ofNat place, ?_, UInt32.toNat_ofNat_of_lt' small⟩
    rwa [mem_wordsFor below least, UInt32.toNat_ofNat_of_lt' small]

/-- Every value of the range has its share of the words. -/
theorem card_wordsFor (below : lo < hi) (least : lo ≤ value) (most : value < hi) :
    (wordsFor lo hi value).card = UInt32.size / (hi.toNat - lo.toNat) ∨
      (wordsFor lo hi value).card = UInt32.size ⌈/⌉ (hi.toNat - lo.toNat) := by
  have injective : Function.Injective UInt32.toNat := fun _ _ => UInt32.toNat_inj.mp
  -- the interval ends where the one of the next value starts
  rw [← Finset.card_image_of_injective _ injective, image_wordsFor below least most, Nat.card_Ico,
    Nat.add_mul, Nat.one_mul]
  exact ceilDiv_add_sub_ceilDiv _ _ (span_pos below)

/-- How a range that is not empty is drawn from. -/
structure DrawsEvenly (lo hi : UInt32) : Prop where
  /-- A draw takes one word and scales it. -/
  drawn {G : Type} [WordGenerator G] (stream : SeededStream G) :
    stream.nextInRange lo hi = stream.nextU32.map (scale lo hi) id
  fits (word : UInt32) : scale? lo hi word = some (scale lo hi word)
  inside (word : UInt32) : lo ≤ scale lo hi word ∧ scale lo hi word < hi
  monotone {word later : UInt32} : word ≤ later → scale lo hi word ≤ scale lo hi later
  /-- Each number of the range has its share of the words, rounded one way or the other. -/
  even {value : UInt32} : lo ≤ value → value < hi →
    (wordsFor lo hi value).card = UInt32.size / (hi.toNat - lo.toNat) ∨
      (wordsFor lo hi value).card = UInt32.size ⌈/⌉ (hi.toNat - lo.toNat)

/-- Draws from a range stay in it, do not overflow on their way, go up with the word that is drawn, and
are as even as one word allows. -/
theorem draws_evenly (below : lo < hi) : DrawsEvenly lo hi where
  drawn _ := if_neg (UInt32.not_le.mpr below)
  fits := scale?_eq below
  inside word := by
    rw [UInt32.le_iff_toNat_le, UInt32.lt_iff_toNat_lt, toNat_scale below]
    exact ⟨Nat.le_add_right _ _, lo_add_part_lt below word⟩
  monotone before := by
    rw [UInt32.le_iff_toNat_le] at before
    rw [UInt32.le_iff_toNat_le, toNat_scale below, toNat_scale below]
    apply Nat.add_le_add_left
    exact Nat.div_le_div_right (Nat.mul_le_mul_right _ before)
  even := card_wordsFor below

/-- The range from one up to the last word: drawing the last word gives the number before the end, and the
number seven has one word or two. -/
theorem draws_evenly_up_to_last_word : (1 : UInt32) < 4294967295 ∧
    scale? 1 4294967295 4294967295 = some 4294967294 ∧
    ((wordsFor 1 4294967295 7).card = 1 ∨ (wordsFor 1 4294967295 7).card = 2) := by
  have below : (1 : UInt32) < 4294967295 := by decide
  have evenly := draws_evenly below
  exact ⟨below, (evenly.fits 4294967295).trans (by decide), evenly.even (by decide) (by decide)⟩

end RandomStream

end Lockstep
