import Lockstep.Drift.Opinion
import Lockstep.Proofs.Drift

/-! # Strict decoding

A strict decoder accepts nothing but what is written of a value within its limits: it takes exactly
those bytes from the front of its input, and on any other input it fails. Strictness of the parts makes
a composite decoder strict, and a strict decoder tells byte strings apart. Command frames and opinions
are decoded strictly (`frames_and_opinions_are_strict`).
-/

namespace Lockstep

namespace Decoder

variable {ε α β : Type}

/-- A decoder succeeds exactly where its input starts with what is written of a value within limits, and
leaves the rest. -/
def Strict (decoder : Decoder ε α) (within : α → Prop) (spelling : α → Bytes) : Prop :=
  ∀ ⦃input : Bytes⦄ ⦃value : α⦄ ⦃rest : Bytes⦄,
    decoder input = .ok value rest ↔ within value ∧ input = spelling value ++ rest

namespace Strict

variable {decoder : Decoder ε α} {within : α → Prop} {spelling : α → Bytes} {input rest : Bytes}
  {value : α}

/-- A decoder that reads what is written, and accepts nothing else. -/
theorem of_reads (reads : ∀ value, within value → Reads decoder (spelling value) value)
    (accepts : ∀ ⦃input value rest⦄, decoder input = .ok value rest →
      within value ∧ input = spelling value ++ rest) : Strict decoder within spelling := by
  intro input value rest
  refine ⟨fun read => accepts read, ?_⟩
  rintro ⟨inside, rfl⟩
  exact reads value inside rest

/-- Values within the limits of one decoder, seen as those within the limits of another. -/
theorem map {f : α → β} {g : β → α} {within' : β → Prop} (strict : Strict decoder within spelling)
    (there : ∀ value, within value → within' (f value) ∧ g (f value) = value)
    (back : ∀ result, within' result → within (g result) ∧ f (g result) = result) :
    Strict (f <$> decoder) within' fun result => spelling (g result) := by
  refine of_reads (fun result inside => ?_) fun input result rest read => ?_
  · obtain ⟨inside, same⟩ := back result inside
    have reads : Reads decoder (spelling (g result)) (g result) :=
      fun rest => strict.mpr ⟨inside, rfl⟩
    exact (reads.map f).congr same
  · have same : f <$> decoder = decoder >>= fun value => Pure.pure (f value) := rfl
    rw [same] at read
    obtain ⟨value, middle, first, read⟩ := bind_eq_ok.mp read
    obtain ⟨rfl, rfl⟩ := pure_eq_ok.mp read
    obtain ⟨inside, rfl⟩ := strict.mp first
    obtain ⟨inside', same⟩ := there value inside
    exact ⟨inside', by rw [same]⟩

/-- A strict decoder that reads all of an input. -/
theorem decode_eq_ok_iff {decoder : Decoder FormatError α} (strict : Strict decoder within spelling) :
    decoder.decode input = .ok value ↔ within value ∧ input = spelling value := by
  constructor
  · intro decoded
    obtain ⟨left, read⟩ := outcome_eq_ok.mp decoded
    obtain ⟨_, middle, first, read⟩ := bind_eq_ok.mp read
    obtain ⟨_, _, finished, read⟩ := bind_eq_ok.mp read
    obtain ⟨rfl, -⟩ := pure_eq_ok.mp read
    obtain ⟨inside, rfl⟩ := strict.mp first
    cases middle with
    | nil => exact ⟨inside, List.append_nil _⟩
    | cons byte more => cases finished
  · rintro ⟨inside, rfl⟩
    exact Reads.decode fun rest => strict.mpr ⟨inside, rfl⟩

/-- Several values are read in front of those before them, the latest first. -/
theorem repeatOnto_eq_ok (strict : Strict decoder within spelling) {count : Nat}
    {before values : List α} (read : repeatOnto decoder count before input = .ok values rest) :
    ∃ latest : List α, values = latest.reverse ++ before ∧ latest.length = count ∧
      (∀ value ∈ latest, within value) ∧ input = latest.flatMap spelling ++ rest := by
  induction count generalizing before input with
  | zero =>
    obtain ⟨rfl, rfl⟩ := pure_eq_ok.mp read
    exact ⟨[], rfl, rfl, nofun, rfl⟩
  | succ count ih =>
    obtain ⟨value, middle, first, later⟩ := bind_eq_ok.mp read
    obtain ⟨inside, rfl⟩ := strict.mp first
    obtain ⟨latest, rfl, rfl, insideAll, rfl⟩ := ih later
    refine ⟨value :: latest, ?_, rfl, List.forall_mem_cons.mpr ⟨inside, insideAll⟩, ?_⟩
    · rw [List.reverse_cons, List.append_assoc, List.singleton_append]
    · rw [List.flatMap_cons, List.append_assoc]

theorem replicate (strict : Strict decoder within spelling) (count : Nat) :
    Strict (decoder.replicate count)
      (fun values => values.length = count ∧ ∀ value ∈ values, within value)
      (List.flatMap spelling) := by
  refine of_reads (fun values inside => ?_) fun input values rest read => ?_
  · obtain ⟨rfl, inside⟩ := inside
    have reads : Reads (decoder.replicate values.length) (values.flatMap spelling) (values.map id) :=
      reads_replicate fun value member rest => strict.mpr ⟨inside value member, rfl⟩
    rwa [List.map_id] at reads
  · have same : decoder.replicate count =
        decoder.repeatOnto count [] >>= fun values => Pure.pure values.reverse := rfl
    rw [same] at read
    obtain ⟨reversed, middle, first, read⟩ := bind_eq_ok.mp read
    obtain ⟨rfl, rfl⟩ := pure_eq_ok.mp read
    obtain ⟨latest, rfl, length, inside, rfl⟩ := strict.repeatOnto_eq_ok first
    rw [List.append_nil, List.reverse_reverse]
    exact ⟨⟨length, inside⟩, rfl⟩

end Strict

/-! ## Plain data -/

theorem strict_take (count : Nat) : Strict (take count) (·.length = count) fun chunk => chunk := by
  refine .of_reads (fun chunk length => reads_take length) fun input chunk rest read => ?_
  unfold take at read
  dsimp only at read
  split at read
  next length =>
    cases read
    exact ⟨length, (List.take_append_drop count input).symm⟩
  next => cases read

theorem strict_nat (width : Nat) : Strict (nat width) (· < 256 ^ width) (Bytes.ofNat width) := by
  refine (strict_take width).map (fun chunk length => ?_) fun n fits => ?_
  · subst length
    exact ⟨Bytes.toNat_lt chunk, Bytes.ofNat_toNat chunk⟩
  · exact ⟨Bytes.length_ofNat width n, Bytes.toNat_ofNat fits⟩

theorem strict_uint16 : Strict uint16 (fun _ => True) Bytes.ofUInt16 :=
  (strict_nat 2).map (fun _ fits => ⟨trivial, UInt16.toNat_ofNat_of_lt' fits⟩)
    fun word _ => ⟨word.toNat_lt, UInt16.ofNat_toNat⟩

theorem strict_uint32 : Strict uint32 (fun _ => True) Bytes.ofUInt32 :=
  (strict_nat 4).map (fun _ fits => ⟨trivial, UInt32.toNat_ofNat_of_lt' fits⟩)
    fun word _ => ⟨word.toNat_lt, UInt32.ofNat_toNat⟩

theorem strict_uint64 : Strict uint64 (fun _ => True) Bytes.ofUInt64 :=
  (strict_nat 8).map (fun _ fits => ⟨trivial, UInt64.toNat_ofNat_of_lt' fits⟩)
    fun word _ => ⟨word.toNat_lt, UInt64.ofNat_toNat⟩

theorem strict_int32 : Strict int32 (fun _ => True) Bytes.ofInt32 :=
  strict_uint32.map (fun word _ => ⟨trivial, UInt32.toUInt32_toInt32 word⟩)
    fun word _ => ⟨trivial, Int32.toInt32_toUInt32 word⟩

theorem strict_count : Strict count (· ≤ 65535) (Bytes.ofNat 2) := by
  have words : Strict count (· ≤ 65535) fun n => Bytes.ofUInt16 (UInt16.ofNat n) := strict_uint16.map
    (fun word _ => ⟨Nat.le_of_lt_succ word.toNat_lt, UInt16.ofNat_toNat⟩)
    fun n small => ⟨trivial, UInt16.toNat_ofNat_of_lt' (Nat.lt_succ_of_le small)⟩
  intro input n rest
  refine (@words input n rest).trans (and_congr_right fun small => ?_)
  simp only [Bytes.ofUInt16, UInt16.toNat_ofNat_of_lt' (Nat.lt_succ_of_le small)]

theorem strict_blob : Strict blob (·.length ≤ maxBlobLength)
    fun blob => .ofNat 4 blob.length ++ blob := by
  have fits {length : Nat} (short : length ≤ maxBlobLength) : length < UInt32.size :=
    Nat.lt_of_le_of_lt short (by decide)
  refine .of_reads (fun blob short => reads_blob (if_pos (fits short)) short)
    fun input blob rest read => ?_
  obtain ⟨length, middle, first, body⟩ := bind_eq_ok.mp read
  obtain ⟨-, rfl⟩ := (strict_nat 4).mp first
  split at body
  next =>
    obtain ⟨_, _, impossible, _⟩ := bind_eq_ok.mp body
    cases impossible
  next short =>
    obtain ⟨rfl, rfl⟩ := (strict_take length).mp body
    exact ⟨Nat.not_lt.mp short, (List.append_assoc _ _ _).symm⟩

theorem strict_scope : Strict scope (·.isRepresentable = true) fun scope => .ofInt32 scope.toWire := by
  refine .of_reads (fun _ representable => reads_scope representable) fun input named rest read => ?_
  obtain ⟨raw, middle, first, known⟩ := bind_eq_ok.mp read
  obtain ⟨-, rfl⟩ := strict_int32.mp first
  cases stands : ScopeId.ofWire? raw with
  | none =>
    rw [stands] at known
    cases known
  | some other =>
    rw [stands] at known
    obtain ⟨rfl, rfl⟩ := pure_eq_ok.mp known
    obtain ⟨representable, rfl⟩ := ScopeId.ofWire?_eq_some stands
    exact ⟨representable, rfl⟩

end Decoder

/-! ## Frames and opinions -/

open Decoder

/-- The frame of a command whose payload has a length that fits. -/
def Command.bytes (command : Command) : Bytes :=
  .ofUInt32 command.handler ++ (.ofUInt32 command.tick ++
    (.ofInt32 command.scope.toWire ++ (.ofNat 4 command.payload.length ++ command.payload)))

theorem Command.strict : Strict Decoder.command
    (fun command => command.scope.isRepresentable = true ∧ command.payload.length ≤ maxBlobLength)
    Command.bytes := by
  intro input command rest
  constructor
  · intro read
    obtain ⟨handler, _, handled, read⟩ := Decoder.bind_eq_ok.mp read
    obtain ⟨tick, _, ticked, read⟩ := Decoder.bind_eq_ok.mp read
    obtain ⟨scope, _, named, read⟩ := Decoder.bind_eq_ok.mp read
    obtain ⟨payload, _, loaded, read⟩ := Decoder.bind_eq_ok.mp read
    obtain ⟨rfl, rfl⟩ := pure_eq_ok.mp read
    obtain ⟨-, rfl⟩ := strict_uint32.mp handled
    obtain ⟨-, rfl⟩ := strict_uint32.mp ticked
    obtain ⟨representable, rfl⟩ := strict_scope.mp named
    obtain ⟨short, rfl⟩ := strict_blob.mp loaded
    exact ⟨⟨representable, short⟩, by simp only [bytes, List.append_assoc]⟩
  · rintro ⟨⟨representable, short⟩, rfl⟩
    refine Decoder.bind_eq_ok.mpr ⟨_, _, strict_uint32.mpr ⟨trivial, ?_⟩,
      Decoder.bind_eq_ok.mpr ⟨_, _, strict_uint32.mpr ⟨trivial, rfl⟩,
        Decoder.bind_eq_ok.mpr ⟨_, _, strict_scope.mpr ⟨representable, rfl⟩,
          Decoder.bind_eq_ok.mpr ⟨_, _, strict_blob.mpr ⟨short, rfl⟩, rfl⟩⟩⟩⟩
    simp only [bytes, List.append_assoc]

theorem DriftSample.strict : Strict DriftSample.decode (fun _ => True) DriftSample.encode := by
  refine .of_reads (fun sample _ => sample.reads) fun input sample rest read => ?_
  obtain ⟨tick, _, ticked, read⟩ := Decoder.bind_eq_ok.mp read
  obtain ⟨value, _, valued, read⟩ := Decoder.bind_eq_ok.mp read
  obtain ⟨rfl, rfl⟩ := pure_eq_ok.mp read
  obtain ⟨-, rfl⟩ := strict_uint32.mp ticked
  obtain ⟨-, rfl⟩ := strict_uint64.mp valued
  exact ⟨trivial, (List.append_assoc _ _ _).symm⟩

/-- The bytes of an opinion whose samples can be counted. -/
def DriftOpinion.bytes (opinion : DriftOpinion) : Bytes :=
  .ofInt32 opinion.scope.toWire ++ (.ofUInt32 opinion.tick ++
    (.ofNat 2 opinion.samples.length ++ opinion.samples.flatMap DriftSample.encode))

theorem DriftOpinion.strict : Strict DriftOpinion.decoder
    (fun opinion => opinion.scope.isRepresentable = true ∧ opinion.samples.length ≤ 65535)
    DriftOpinion.bytes := by
  have samples (count : Nat) := DriftSample.strict.replicate count
  intro input opinion rest
  constructor
  · intro read
    obtain ⟨scope, _, named, read⟩ := Decoder.bind_eq_ok.mp read
    obtain ⟨tick, _, ticked, read⟩ := Decoder.bind_eq_ok.mp read
    obtain ⟨count, _, counted, read⟩ := Decoder.bind_eq_ok.mp read
    obtain ⟨values, _, sampled, read⟩ := Decoder.bind_eq_ok.mp read
    obtain ⟨rfl, rfl⟩ := pure_eq_ok.mp read
    obtain ⟨representable, rfl⟩ := strict_scope.mp named
    obtain ⟨-, rfl⟩ := strict_uint32.mp ticked
    obtain ⟨few, rfl⟩ := strict_count.mp counted
    obtain ⟨⟨rfl, -⟩, rfl⟩ := (samples count).mp sampled
    exact ⟨⟨representable, few⟩, by simp only [bytes, List.append_assoc]⟩
  · rintro ⟨⟨representable, few⟩, rfl⟩
    refine Decoder.bind_eq_ok.mpr ⟨_, _, strict_scope.mpr ⟨representable, ?_⟩,
      Decoder.bind_eq_ok.mpr ⟨_, _, strict_uint32.mpr ⟨trivial, rfl⟩,
        Decoder.bind_eq_ok.mpr ⟨_, _, strict_count.mpr ⟨few, rfl⟩,
          Decoder.bind_eq_ok.mpr ⟨_, _, (samples _).mpr ⟨⟨rfl, fun _ _ => trivial⟩, rfl⟩, rfl⟩⟩⟩⟩
    simp only [bytes, List.append_assoc]

/-- A way to decode and a way to encode belong together: what is accepted is what is written of the
values within limits. So bytes that are accepted have been written, and no two byte strings stand for
one value. -/
structure DecodesStrictly {ε ε' α : Type} (decode : Bytes → Except ε α) (encode : α → Except ε' Bytes)
    (within : α → Prop) : Prop where
  accepts (bytes : Bytes) (value : α) :
    decode bytes = .ok value ↔ within value ∧ encode value = .ok bytes
  written {bytes : Bytes} {value : α} : decode bytes = .ok value → ∃ value, encode value = .ok bytes
  unique {first second : Bytes} {value : α} :
    decode first = .ok value → decode second = .ok value → first = second

theorem DecodesStrictly.of_accepts {ε ε' α : Type} {decode : Bytes → Except ε α}
    {encode : α → Except ε' Bytes} {within : α → Prop} (accepts : ∀ bytes value,
      decode bytes = .ok value ↔ within value ∧ encode value = .ok bytes) :
    DecodesStrictly decode encode within where
  accepts := accepts
  written decoded := ⟨_, ((accepts _ _).mp decoded).2⟩
  unique first second :=
    Except.ok.inj (((accepts _ _).mp first).2.symm.trans ((accepts _ _).mp second).2)

/-- Frames are accepted exactly if they are written of commands with payloads of limited length, and
opinions exactly if they are written of opinions with countable samples, for scopes with a wire form
of their own. -/
theorem frames_and_opinions_are_strict :
    DecodesStrictly Command.decode Command.encode (fun command =>
      command.scope.isRepresentable = true ∧ command.payload.length ≤ maxBlobLength) ∧
    DecodesStrictly DriftOpinion.decode DriftOpinion.encode (fun opinion =>
      opinion.scope.isRepresentable = true ∧ opinion.samples.length ≤ 65535) := by
  refine ⟨.of_accepts fun bytes command => ?_, .of_accepts fun bytes opinion => ?_⟩
  · refine Command.strict.decode_eq_ok_iff.trans (and_congr_right fun ⟨_, short⟩ => ?_)
    have fits : command.payload.length < UInt32.size := Nat.lt_of_le_of_lt short (by decide)
    rw [Command.encode, Bytes.ofBlob?, if_pos fits]
    exact eq_comm.trans (Except.ok.injEq _ _).symm.to_iff
  · refine DriftOpinion.strict.decode_eq_ok_iff.trans (and_congr_right fun ⟨_, few⟩ => ?_)
    rw [DriftOpinion.encode, Bytes.ofCount?, if_pos few]
    exact eq_comm.trans (Except.ok.injEq _ _).symm.to_iff

example : Command.decode [12, 0, 0, 0, 44, 1, 0, 0, 255, 255, 255, 255, 3, 0, 0, 0, 4, 5, 6] =
    .ok { handler := 12, tick := 300, scope := .global, payload := [4, 5, 6] } := by rfl

end Lockstep
