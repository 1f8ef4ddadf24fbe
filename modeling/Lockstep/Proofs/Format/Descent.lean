import Lockstep.Format.Script

/-! # What decoders leave

`Descends decoder` says that what the decoder leaves is an end of its input, also where it fails: it takes
bytes off the front, perhaps none, and puts none back. A composite decoder descends if its parts do.
-/

namespace Lockstep

namespace Decoder

variable {ε α β : Type}

/-- A decoder leaves an end of its input, in success and in failure. -/
def Descends (decoder : Decoder ε α) : Prop := ∀ input, decoder.rest input <:+ input

namespace Descends

theorem pure (value : α) : Descends (Pure.pure value : Decoder ε α) := fun input => input.suffix_refl

/-- A decoder that refuses without reading leaves all. -/
theorem throw (error : ε) : Descends (MonadExcept.throw error : Decoder ε α) :=
  fun input => input.suffix_refl

/-- The second step starts where the first one has stopped. -/
theorem bind {first : Decoder ε α} {next : α → Decoder ε β} (left : Descends first)
    (right : ∀ value, Descends (next value)) : Descends (first >>= next) := by
  intro input
  have step := left input
  change rest (EStateM.bind first next) input <:+ input
  unfold rest at step ⊢
  rw [EStateM.bind]
  cases read : first input with
  | ok value middle =>
    rw [read] at step
    exact (right value middle).trans step
  | error error middle =>
    rw [read] at step
    exact step

theorem map (f : α → β) {decoder : Decoder ε α} (descends : Descends decoder) :
    Descends (f <$> decoder) :=
  descends.bind fun value => .pure (f value)

end Descends

theorem descends_take (count : Nat) : Descends (take count) := by
  intro input
  by_cases enough : (input.take count).length = count
  · have left : (take count).rest input = input.drop count := by rw [rest, take, if_pos enough]
    exact left ▸ input.drop_suffix count
  · have left : (take count).rest input = input := by rw [rest, take, if_neg enough]
    exact left.symm ▸ input.suffix_refl

theorem descends_nat (width : Nat) : Descends (nat width) := (descends_take width).map _

theorem descends_uint8 : Descends uint8 := (descends_nat 1).map _

theorem descends_uint16 : Descends uint16 := (descends_nat 2).map _

theorem descends_uint32 : Descends uint32 := (descends_nat 4).map _

theorem descends_uint64 : Descends uint64 := (descends_nat 8).map _

theorem descends_int32 : Descends int32 := descends_uint32.map _

theorem descends_bool : Descends bool := by
  refine descends_uint8.bind fun byte => ?_
  split
  · exact .pure false
  · exact .pure true
  · exact .throw _

theorem descends_blob : Descends blob := by
  refine (descends_nat 4).bind fun length => ?_
  split
  · exact (Descends.throw _).bind fun _ => descends_take length
  · exact descends_take length

theorem descends_text : Descends text := by
  refine descends_blob.bind fun bytes => ?_
  split
  · exact .pure _
  · exact .throw _

theorem descends_remainder : Descends (remainder : Decoder ε Bytes) := fun input => input.nil_suffix

end Decoder

open Decoder (Descends)

theorem ScalarKind.descends (kind : ScalarKind) : Descends kind.decode := by
  cases kind with
  | bool => exact Decoder.descends_bool.map _
  | u8 | i8 => exact Decoder.descends_uint8.map _
  | u16 | i16 => exact Decoder.descends_uint16.map _
  | u32 | f32 => exact Decoder.descends_uint32.map _
  | u64 | i64 | f64 => exact Decoder.descends_uint64.map _
  | i32 => exact Decoder.descends_int32.map _
  | string => exact Decoder.descends_text.map _
  | bytes => exact Decoder.descends_blob.map _

theorem WireKind.descends (kind : WireKind) : Descends kind.decode := by
  cases kind with
  | scalar kind => exact kind.descends.map _
  | count => exact (Decoder.descends_uint16.map _).map _
  | remainder => exact Decoder.descends_remainder.map _

end Lockstep
