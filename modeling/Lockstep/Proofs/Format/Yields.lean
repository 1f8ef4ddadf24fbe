import Lockstep.Proofs.Format.Reading
import Lockstep.Proofs.Ident
import Lockstep.Proofs.Success
import Lockstep.Schema.Decode

/-! # What decoders come to

`Yields decoder holds` says what is known of a decoder that has succeeded, on whatever input: it has
taken bytes off the front, and `holds` of the value and of how many bytes these were. What a composite
decoder yields is put together from what its parts do.
-/

namespace Lockstep.Decoder

variable {ε ε' α β : Type}

/-- Whenever the decoder succeeds, this holds of the value and of the number of bytes that it took. -/
def Yields (decoder : Decoder ε α) (holds : α → Nat → Prop) : Prop :=
  ∀ ⦃input value rest⦄, decoder input = .ok value rest →
    ∃ taken, input = taken ++ rest ∧ holds value taken.length

namespace Yields

variable {decoder : Decoder ε α} {holds : α → Nat → Prop}

theorem mono {weaker : α → Nat → Prop} (yields : Yields decoder holds)
    (implies : ∀ value size, holds value size → weaker value size) : Yields decoder weaker := by
  intro input value rest read
  obtain ⟨taken, same, held⟩ := yields read
  exact ⟨taken, same, implies value taken.length held⟩

/-- What decides without reading takes nothing. -/
theorem pure {value : α} (held : holds value 0) : Yields (Pure.pure value : Decoder ε α) holds := by
  intro input other rest read
  obtain ⟨rfl, rfl⟩ := pure_eq_ok.mp read
  exact ⟨[], rfl, held⟩

theorem throw (error : ε) : Yields (MonadExcept.throw error : Decoder ε α) holds := by
  intro input value rest impossible
  cases impossible

/-- The bytes of two steps add up. -/
theorem bind {next : α → Decoder ε β} {both : β → Nat → Prop} (left : Yields decoder holds)
    (right : ∀ value size, holds value size →
      Yields (next value) fun result more => both result (size + more)) :
    Yields (decoder >>= next) both := by
  intro input result rest read
  obtain ⟨value, middle, first, second⟩ := bind_eq_ok.mp read
  obtain ⟨taken, rfl, held⟩ := left first
  obtain ⟨more, rfl, held⟩ := right value taken.length held second
  refine ⟨taken ++ more, (List.append_assoc _ _ _).symm, ?_⟩
  rwa [List.length_append]

theorem map {both : β → Nat → Prop} (f : α → β)
    (yields : Yields decoder fun value size => both (f value) size) : Yields (f <$> decoder) both := by
  have same : f <$> decoder = decoder >>= fun value => Pure.pure (f value) := rfl
  rw [same]
  exact yields.bind fun value size held => .pure held

theorem mapError (wrap : ε → ε') (yields : Yields decoder holds) :
    Yields (decoder.mapError wrap) holds :=
  fun _ _ _ read => yields (mapError_eq_ok.mp read)

/-- Plain data as a part of a value. -/
theorem lift {decoder : Decoder FormatError α} (yields : Yields decoder holds) :
    Yields (liftM decoder : Decoder DecodeError α) holds :=
  yields.mapError DecodeError.format

/-- Several values are read in front of those before them, the latest first. -/
theorem repeatOnto (each : Yields decoder holds) (all : List α → Nat → Prop) (nil : all [] 0)
    (cons : ∀ value values size more, holds value size → all values more →
      all (value :: values) (size + more)) (count : Nat) (before : List α) :
    Yields (Decoder.repeatOnto decoder count before) fun values size =>
      ∃ latest, values = latest.reverse ++ before ∧ latest.length = count ∧ all latest size := by
  induction count generalizing before with
  | zero => exact .pure ⟨[], rfl, rfl, nil⟩
  | succ count ih =>
    refine each.bind fun value size held => (ih (value :: before)).mono ?_
    rintro values more ⟨latest, rfl, rfl, held'⟩
    refine ⟨value :: latest, ?_, rfl, cons value latest size more held held'⟩
    rw [List.reverse_cons, List.append_assoc, List.singleton_append]

theorem replicate (each : Yields decoder holds) (all : List α → Nat → Prop) (nil : all [] 0)
    (cons : ∀ value values size more, holds value size → all values more →
      all (value :: values) (size + more)) (count : Nat) :
    Yields (decoder.replicate count) fun values size => values.length = count ∧ all values size := by
  refine ((each.repeatOnto all nil cons count []).mono ?_).map List.reverse
  rintro values size ⟨latest, rfl, length, held⟩
  rw [List.append_nil, List.reverse_reverse]
  exact ⟨length, held⟩

end Yields

/-! ## Plain data -/

theorem yields_take (count : Nat) :
    Yields (take count) fun chunk size => chunk.length = count ∧ size = count := by
  intro input chunk rest read
  by_cases length : (input.take count).length = count
  · rw [take, if_pos length] at read
    cases read
    exact ⟨input.take count, (List.take_append_drop count input).symm, length, length⟩
  · rw [take, if_neg length] at read
    cases read

theorem yields_nat (width : Nat) : Yields (nat width) fun _ size => size = width :=
  ((yields_take width).mono fun _ _ held => held.2).map _

theorem yields_uint8 : Yields uint8 fun _ size => size = 1 := (yields_nat 1).map _

theorem yields_uint16 : Yields uint16 fun _ size => size = 2 := (yields_nat 2).map _

theorem yields_uint32 : Yields uint32 fun _ size => size = 4 := (yields_nat 4).map _

theorem yields_uint64 : Yields uint64 fun _ size => size = 8 := (yields_nat 8).map _

theorem yields_int32 : Yields int32 fun _ size => size = 4 := yields_uint32.map _

theorem yields_bool : Yields bool fun _ size => size = 1 := by
  refine yields_uint8.bind fun byte size held => ?_
  split
  · exact .pure held
  · exact .pure held
  · exact .throw _

/-- A count is a word. -/
theorem yields_count : Yields count fun count size => count ≤ 65535 ∧ size = 2 :=
  (yields_uint16.mono fun word _ held => ⟨Nat.le_of_lt_succ word.toNat_lt, held⟩).map UInt16.toNat

theorem yields_blob :
    Yields blob fun blob size => blob.length ≤ maxBlobLength ∧ size = 4 + blob.length := by
  refine (yields_nat 4).bind fun length size held => ?_
  subst held
  split
  next => exact (Yields.throw _).bind fun _ _ impossible => absurd impossible not_false
  next short =>
    refine (yields_take length).mono fun blob size held => ?_
    obtain ⟨rfl, rfl⟩ := held
    exact ⟨Nat.not_lt.mp short, rfl⟩

theorem yields_text : Yields text fun text size =>
    (Bytes.ofString text).length ≤ maxBlobLength ∧ size = 4 + (Bytes.ofString text).length := by
  refine yields_blob.bind fun blob size held => ?_
  split
  next text spelled =>
    rw [← Bytes.ofString_of_toString? spelled] at held
    exact .pure held
  next => exact .throw _

/-- An id that is read is the same number without its sign. -/
theorem yields_id : Yields id? fun id? size => (∀ id ∈ id?, id ≤ 0x7fffffff) ∧ size = 4 := by
  refine yields_int32.bind fun raw size held => .pure ⟨?_, held⟩
  split
  next nonneg =>
    intro id same
    cases same
    exact Int32.toUInt32_le nonneg
  next => exact nofun

end Lockstep.Decoder
