import Lockstep.Proofs.Format.Reading

/-! # Input that has been cut short

`RunsOut decoder bytes` says that the decoder finds too few bytes wherever these bytes are cut off. A
composite decoder runs out if its parts do: either the cut lies in the first part, or the first part
is read and the cut lies behind it.
-/

namespace Lockstep.Decoder

variable {α β : Type}

/-- A decoder finds too few bytes on every proper beginning of these bytes. -/
def RunsOut (decoder : Decoder FormatError α) (bytes : Bytes) : Prop :=
  ∀ ⦃cut⦄, cut <+: bytes → cut.length < bytes.length →
    ∃ needed available left, decoder cut = .error (.truncated needed available) left

/-- A beginning of two byte strings ends in the first one or behind it. -/
theorem prefix_append_cases {cut first second : Bytes} (start : cut <+: first ++ second)
    (short : cut.length < (first ++ second).length) :
    (cut <+: first ∧ cut.length < first.length) ∨
      ∃ rest, cut = first ++ rest ∧ rest <+: second ∧ rest.length < second.length := by
  by_cases inside : cut.length < first.length
  · exact .inl ⟨List.prefix_of_prefix_length_le start (List.prefix_append first second)
      (Nat.le_of_lt inside), inside⟩
  · have whole : first <+: cut := List.prefix_of_prefix_length_le (List.prefix_append first second)
      start (Nat.not_lt.mp inside)
    obtain ⟨rest, rfl⟩ := whole
    rw [List.length_append, List.length_append, Nat.add_lt_add_iff_left] at short
    exact .inr ⟨rest, rfl, (List.prefix_append_right_inj first).mp start, short⟩

namespace RunsOut

variable {decoder : Decoder FormatError α} {bytes first second : Bytes} {value : α}

theorem bind {next : α → Decoder FormatError β} (left : RunsOut decoder first)
    (reads : Reads decoder first value) (right : RunsOut (next value) second) :
    RunsOut (decoder >>= next) (first ++ second) := by
  intro cut start short
  rcases prefix_append_cases start short with ⟨start, short⟩ | ⟨rest, rfl, start, short⟩
  · obtain ⟨needed, available, left, failed⟩ := left start short
    refine ⟨needed, available, left, ?_⟩
    change EStateM.bind decoder next cut = _
    rw [EStateM.bind, failed]
  · obtain ⟨needed, available, left, failed⟩ := right start short
    refine ⟨needed, available, left, ?_⟩
    rw [reads.bind_apply next rest, failed]

/-- A last step that takes no bytes. -/
theorem bind_last (left : RunsOut decoder bytes) (next : α → Decoder FormatError β) :
    RunsOut (decoder >>= next) bytes := by
  intro cut start short
  obtain ⟨needed, available, left, failed⟩ := left start short
  refine ⟨needed, available, left, ?_⟩
  change EStateM.bind decoder next cut = _
  rw [EStateM.bind, failed]

theorem map (f : α → β) (runsOut : RunsOut decoder bytes) : RunsOut (f <$> decoder) bytes := by
  intro cut start short
  obtain ⟨needed, available, left, failed⟩ := runsOut start short
  refine ⟨needed, available, left, ?_⟩
  change EStateM.map f decoder cut = _
  rw [EStateM.map, failed]

/-- Nothing cannot be cut. -/
theorem of_nil (decoder : Decoder FormatError α) : RunsOut decoder [] :=
  fun _ _ short => absurd short (Nat.not_lt_zero _)

end RunsOut

theorem runsOut_take {count : Nat} {bytes : Bytes} (length : bytes.length = count) :
    RunsOut (take count) bytes := by
  intro cut _ short
  refine ⟨count, cut.length, cut, ?_⟩
  have few : ¬(cut.take count).length = count := by
    rw [List.length_take]
    omega
  rw [take, if_neg few]

theorem runsOut_nat (width n : Nat) : RunsOut (nat width) (.ofNat width n) :=
  (runsOut_take (Bytes.length_ofNat width n)).map Bytes.toNat

theorem runsOut_uint32 (v : UInt32) : RunsOut uint32 (.ofUInt32 v) := (runsOut_nat 4 _).map _

theorem runsOut_uint64 (v : UInt64) : RunsOut uint64 (.ofUInt64 v) := (runsOut_nat 8 _).map _

/-- A byte string that is cut short runs out in its length or behind it. -/
theorem runsOut_blob {blob : Bytes} (short : blob.length ≤ maxBlobLength) :
    RunsOut Decoder.blob (.ofNat 4 blob.length ++ blob) := by
  have fits : blob.length < 256 ^ 4 := Nat.lt_of_le_of_lt short (by decide)
  refine (runsOut_nat 4 blob.length).bind (reads_nat fits) ?_
  rw [if_neg (Nat.not_lt.mpr short)]
  exact runsOut_take rfl

/-- Of several values, the one that is cut runs out. -/
theorem runsOut_repeatOnto {ι : Type} {decoder : Decoder FormatError α} {items : List ι}
    {encode : ι → Bytes} {value : ι → α}
    (reads : ∀ item ∈ items, Reads decoder (encode item) (value item))
    (runsOut : ∀ item ∈ items, RunsOut decoder (encode item)) (before : List α) :
    RunsOut (repeatOnto decoder items.length before) (items.flatMap encode) := by
  induction items generalizing before with
  | nil => exact .of_nil _
  | cons item items ih =>
    obtain ⟨read, reads⟩ := List.forall_mem_cons.mp reads
    obtain ⟨first, rest⟩ := List.forall_mem_cons.mp runsOut
    rw [List.flatMap_cons]
    exact first.bind read (ih reads rest (value item :: before))

theorem runsOut_replicate {ι : Type} {decoder : Decoder FormatError α} {items : List ι}
    {encode : ι → Bytes} {value : ι → α}
    (reads : ∀ item ∈ items, Reads decoder (encode item) (value item))
    (runsOut : ∀ item ∈ items, RunsOut decoder (encode item)) :
    RunsOut (Decoder.replicate items.length decoder) (items.flatMap encode) :=
  (runsOut_repeatOnto reads runsOut []).map List.reverse

end Lockstep.Decoder
