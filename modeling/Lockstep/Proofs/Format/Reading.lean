import Lockstep.Format.Decoder
import Lockstep.Proofs.Format.Bytes

/-! # What decoders read

A decoder made of parts succeeds exactly if its parts do, one after another on what the earlier
ones left. `Reads decoder bytes value` says that the decoder takes these bytes, whatever follows
them, and makes this value of them; what a composite decoder reads is put together from what its
parts do.
-/

namespace Lockstep.Decoder

variable {ε ε' α β : Type}

/-! ## Decoders that succeed -/

theorem bind_eq_ok {first : Decoder ε α} {next : α → Decoder ε β} {input rest : Bytes}
    {result : β} :
    (first >>= next) input = .ok result rest ↔
      ∃ value middle, first input = .ok value middle ∧ next value middle = .ok result rest := by
  change EStateM.bind first next input = _ ↔ _
  rw [EStateM.bind]
  cases first input with
  | ok value middle =>
    constructor
    · intro read
      exact ⟨value, middle, rfl, read⟩
    · rintro ⟨_, _, same, read⟩
      cases same
      exact read
  | error error middle =>
    constructor
    · intro impossible
      cases impossible
    · rintro ⟨_, _, impossible, _⟩
      cases impossible

theorem pure_eq_ok {input rest : Bytes} {value result : α} :
    (pure value : Decoder ε α) input = .ok result rest ↔ value = result ∧ input = rest := by
  change EStateM.Result.ok value input = .ok result rest ↔ _
  constructor
  · intro same
    cases same
    exact ⟨rfl, rfl⟩
  · rintro ⟨rfl, rfl⟩
    rfl

theorem mapError_eq_ok {decoder : Decoder ε α} {wrap : ε → ε'} {input rest : Bytes} {value : α} :
    decoder.mapError wrap input = .ok value rest ↔ decoder input = .ok value rest := by
  rw [mapError]
  cases decoder input with
  | ok other left =>
    constructor
    · intro same
      cases same
      rfl
    · intro same
      cases same
      rfl
  | error error left =>
    constructor
    · intro impossible
      cases impossible
    · intro impossible
      cases impossible

theorem outcome_eq_ok {decoder : Decoder ε α} {input : Bytes} {value : α} :
    decoder.outcome input = .ok value ↔ ∃ rest, decoder input = .ok value rest := by
  unfold outcome
  cases decoder input with
  | ok other rest =>
    constructor
    · intro same
      cases same
      exact ⟨rest, rfl⟩
    · rintro ⟨_, same⟩
      cases same
      rfl
  | error error rest =>
    constructor
    · intro impossible
      cases impossible
    · rintro ⟨_, impossible⟩
      cases impossible

/-! ## Decoders that read -/

/-- A decoder takes exactly these bytes, whatever follows, and makes a value of them. -/
def Reads (decoder : Decoder ε α) (bytes : Bytes) (value : α) : Prop :=
  ∀ rest, decoder (bytes ++ rest) = .ok value rest

namespace Reads

variable {decoder : Decoder ε α} {bytes first second : Bytes} {value : α} {result : β}

theorem pure (value : α) : Reads (Pure.pure value : Decoder ε α) [] value := fun _ => rfl

theorem bind {next : α → Decoder ε β} (left : Reads decoder first value)
    (right : Reads (next value) second result) :
    Reads (decoder >>= next) (first ++ second) result := by
  intro rest
  rw [List.append_assoc]
  exact bind_eq_ok.mpr ⟨value, second ++ rest, left _, right rest⟩

/-- A step that reads hands over to the next one. -/
theorem bind_apply (reads : Reads decoder bytes value) (next : α → Decoder ε β) (rest : Bytes) :
    (decoder >>= next) (bytes ++ rest) = next value rest := by
  change EStateM.bind decoder next (bytes ++ rest) = _
  rw [EStateM.bind, reads rest]

/-- A last step that takes no bytes. -/
theorem bind_last {next : α → Decoder ε β} (left : Reads decoder bytes value)
    (right : Reads (next value) [] result) : Reads (decoder >>= next) bytes result := by
  have both := left.bind right
  rwa [List.append_nil] at both

theorem map (f : α → β) (reads : Reads decoder bytes value) :
    Reads (f <$> decoder) bytes (f value) := by
  intro rest
  change EStateM.map f decoder (bytes ++ rest) = _
  rw [EStateM.map, reads rest]

theorem mapError (wrap : ε → ε') (reads : Reads decoder bytes value) :
    Reads (decoder.mapError wrap) bytes value := by
  intro rest
  rw [Decoder.mapError, reads rest]

/-- A decoder that reads all of an input decodes it. -/
theorem decode {decoder : Decoder FormatError α} (reads : Reads decoder bytes value) :
    decoder.decode bytes = .ok value := by
  refine outcome_eq_ok.mpr ⟨[], bind_eq_ok.mpr ⟨value, [], ?_, rfl⟩⟩
  have all := reads []
  rwa [List.append_nil] at all

theorem congr {other : α} (reads : Reads decoder bytes value) (same : value = other) :
    Reads decoder bytes other :=
  same ▸ reads

end Reads

/-! ## Decoders that refuse -/

/-- A decoder fails on input that starts like this, however it goes on. -/
def Refuses (decoder : Decoder ε α) (bytes : Bytes) : Prop :=
  ∀ rest, ∃ error left, decoder (bytes ++ rest) = .error error left

namespace Refuses

variable {decoder : Decoder ε α} {bytes : Bytes}

theorem append (refuses : Refuses decoder bytes) (more : Bytes) : Refuses decoder (bytes ++ more) := by
  intro rest
  rw [List.append_assoc]
  exact refuses (more ++ rest)

/-- A decoder that refuses fails as the first part of others. -/
theorem bind (refuses : Refuses decoder bytes) (next : α → Decoder ε β) :
    Refuses (decoder >>= next) bytes := by
  intro rest
  obtain ⟨error, left, failed⟩ := refuses rest
  refine ⟨error, left, ?_⟩
  change EStateM.bind decoder next (bytes ++ rest) = _
  rw [EStateM.bind, failed]

theorem map (f : α → β) (refuses : Refuses decoder bytes) : Refuses (f <$> decoder) bytes := by
  intro rest
  obtain ⟨error, left, failed⟩ := refuses rest
  refine ⟨error, left, ?_⟩
  change EStateM.map f decoder (bytes ++ rest) = _
  rw [EStateM.map, failed]

theorem mapError (wrap : ε → ε') (refuses : Refuses decoder bytes) :
    Refuses (decoder.mapError wrap) bytes := by
  intro rest
  obtain ⟨error, left, failed⟩ := refuses rest
  refine ⟨wrap error, left, ?_⟩
  rw [Decoder.mapError, failed]

end Refuses

theorem refuses_throw (error : ε) : Refuses (throw error : Decoder ε α) [] :=
  fun rest => ⟨error, rest, rfl⟩

/-- A later part that refuses fails the whole. -/
theorem Reads.bind_refuses {decoder : Decoder ε α} {next : α → Decoder ε β} {first second : Bytes}
    {value : α} (reads : Reads decoder first value) (refuses : Refuses (next value) second) :
    Refuses (decoder >>= next) (first ++ second) := by
  intro rest
  obtain ⟨error, left, failed⟩ := refuses rest
  refine ⟨error, left, ?_⟩
  rw [List.append_assoc]
  change EStateM.bind decoder next (first ++ (second ++ rest)) = _
  rw [EStateM.bind, reads (second ++ rest)]
  exact failed

/-! ## Decoders with a limit -/

/-- A decoder takes exactly these bytes and makes a value of them if they are within its limits, and
fails on them otherwise. -/
structure ReadsIff (decoder : Decoder ε α) (bytes : Bytes) (within : Prop) (value : α) : Prop where
  reads : within → Reads decoder bytes value
  refuses : ¬within → Refuses decoder bytes

namespace ReadsIff

variable {decoder : Decoder ε α} {bytes first second : Bytes} {within within' : Prop} {value : α}
  {result : β}

/-- A decoder without limits. -/
theorem of_reads (reads : Reads decoder bytes value) : ReadsIff decoder bytes True value :=
  ⟨fun _ => reads, fun impossible => absurd trivial impossible⟩

theorem bind {next : α → Decoder ε β} (left : ReadsIff decoder first within value)
    (right : ReadsIff (next value) second within' result) :
    ReadsIff (decoder >>= next) (first ++ second) (within ∧ within') result where
  reads both := (left.reads both.1).bind (right.reads both.2)
  refuses beyond := by
    by_cases inside : within
    · exact (left.reads inside).bind_refuses (right.refuses fun inside' => beyond ⟨inside, inside'⟩)
    · exact ((left.refuses inside).bind next).append second

/-- A last step that takes no bytes and has no limits. -/
theorem bind_last {next : α → Decoder ε β} (left : ReadsIff decoder bytes within value)
    (right : Reads (next value) [] result) : ReadsIff (decoder >>= next) bytes within result where
  reads inside := (left.reads inside).bind_last right
  refuses outside := (left.refuses outside).bind next

/-- A first step that has no limits. -/
theorem after {next : α → Decoder ε β} (left : Reads decoder first value)
    (right : ReadsIff (next value) second within result) :
    ReadsIff (decoder >>= next) (first ++ second) within result where
  reads inside := left.bind (right.reads inside)
  refuses outside := left.bind_refuses (right.refuses outside)

theorem map (f : α → β) (left : ReadsIff decoder bytes within value) :
    ReadsIff (f <$> decoder) bytes within (f value) where
  reads inside := (left.reads inside).map f
  refuses outside := (left.refuses outside).map f

/-- The same limits in other words. -/
theorem limits (left : ReadsIff decoder bytes within value) (same : within' ↔ within) :
    ReadsIff decoder bytes within' value where
  reads inside := left.reads (same.mp inside)
  refuses outside := left.refuses fun inside => outside (same.mpr inside)

end ReadsIff

theorem reads_take {count : Nat} {bytes : Bytes} (length : bytes.length = count) :
    Reads (take count) bytes bytes := by
  intro rest
  subst length
  simp [take]

theorem reads_nat {width n : Nat} (fits : n < 256 ^ width) : Reads (nat width) (.ofNat width n) n :=
  ((reads_take (Bytes.length_ofNat width n)).map Bytes.toNat).congr (Bytes.toNat_ofNat fits)

theorem reads_uint8 (v : UInt8) : Reads uint8 [v] v := by
  have byte : Bytes.ofNat 1 v.toNat = [v] := by simp [Bytes.ofNat]
  rw [← byte]
  exact ((reads_nat (by have := v.toNat_lt; omega)).map UInt8.ofNat).congr UInt8.ofNat_toNat

theorem reads_uint16 (v : UInt16) : Reads uint16 (.ofUInt16 v) v :=
  ((reads_nat (by have := v.toNat_lt; omega)).map UInt16.ofNat).congr UInt16.ofNat_toNat

theorem reads_uint32 (v : UInt32) : Reads uint32 (.ofUInt32 v) v :=
  ((reads_nat (by have := v.toNat_lt; omega)).map UInt32.ofNat).congr UInt32.ofNat_toNat

theorem reads_uint64 (v : UInt64) : Reads uint64 (.ofUInt64 v) v :=
  ((reads_nat (by have := v.toNat_lt; omega)).map UInt64.ofNat).congr UInt64.ofNat_toNat

theorem reads_int32 (v : Int32) : Reads int32 (.ofInt32 v) v :=
  (reads_uint32 v.toUInt32).map UInt32.toInt32

theorem reads_bool (v : Bool) : Reads bool [if v then 1 else 0] v := by
  apply (reads_uint8 _).bind_last
  cases v with
  | false => exact .pure false
  | true => exact .pure true

/-- A count that is written fits into its field. -/
theorem reads_count {n : Nat} {bytes : Bytes} (written : Bytes.ofCount? n = .ok bytes) :
    Reads count bytes n := by
  unfold Bytes.ofCount? at written
  split at written
  next small =>
    cases written
    have fits : n < 256 ^ 2 := by omega
    have word := ((reads_nat fits).map UInt16.ofNat).map UInt16.toNat
    exact word.congr (UInt16.toNat_ofNat_of_lt' (Nat.lt_succ_of_le small))
  next => cases written

theorem reads_blob {blob bytes : Bytes} (written : Bytes.ofBlob? blob = .ok bytes)
    (short : blob.length ≤ maxBlobLength) : Reads Decoder.blob bytes blob := by
  unfold Bytes.ofBlob? at written
  split at written
  next small =>
    cases written
    have fits : blob.length < 256 ^ 4 := small
    apply (reads_nat fits).bind
    rw [if_neg (Nat.not_lt.mpr short)]
    exact reads_take rfl
  next => cases written

/-- A byte string that is too long is refused at its length. -/
theorem refuses_blob {blob bytes : Bytes} (written : Bytes.ofBlob? blob = .ok bytes)
    (long : maxBlobLength < blob.length) : Refuses Decoder.blob bytes := by
  unfold Bytes.ofBlob? at written
  split at written
  next small =>
    cases written
    have fits : blob.length < 256 ^ 4 := small
    refine (reads_nat fits).bind_refuses ?_
    rw [if_pos long]
    exact ((refuses_throw _).bind _).append blob
  next => cases written

theorem reads_text {text : String} {bytes : Bytes} (written : Bytes.ofText? text = .ok bytes)
    (short : (Bytes.ofString text).length ≤ maxBlobLength) : Reads Decoder.text bytes text := by
  apply (reads_blob written short).bind_last
  rw [Bytes.toString?_ofString]
  exact .pure text

theorem refuses_text {text : String} {bytes : Bytes} (written : Bytes.ofText? text = .ok bytes)
    (long : maxBlobLength < (Bytes.ofString text).length) : Refuses Decoder.text bytes :=
  (refuses_blob written long).bind _

/-! ## Several values -/

/-- Values are read in front of those before them, the latest first. -/
theorem reads_repeatOnto {ι : Type} {decoder : Decoder ε α} {items : List ι} {encode : ι → Bytes}
    {value : ι → α} (each : ∀ item ∈ items, Reads decoder (encode item) (value item))
    (before : List α) :
    Reads (repeatOnto decoder items.length before) (items.flatMap encode)
      ((items.map value).reverse ++ before) := by
  induction items generalizing before with
  | nil => exact .pure before
  | cons item items ih =>
    obtain ⟨first, rest⟩ := List.forall_mem_cons.mp each
    rw [List.flatMap_cons, List.map_cons, List.reverse_cons, List.append_assoc]
    exact first.bind (ih rest (value item :: before))

theorem reads_replicate {ι : Type} {decoder : Decoder ε α} {items : List ι} {encode : ι → Bytes}
    {value : ι → α} (each : ∀ item ∈ items, Reads decoder (encode item) (value item)) :
    Reads (Decoder.replicate items.length decoder) (items.flatMap encode) (items.map value) := by
  have reversed := (reads_repeatOnto each []).map List.reverse
  rwa [List.append_nil, List.reverse_reverse] at reversed

/-- Of several values, the first that is refused fails the reading. -/
theorem refuses_repeatOnto {ι : Type} {decoder : Decoder ε α} {items : List ι} {encode : ι → Bytes}
    (each : ∀ item ∈ items,
      (∃ value, Reads decoder (encode item) value) ∨ Refuses decoder (encode item))
    (one : ∃ item ∈ items, Refuses decoder (encode item)) (before : List α) :
    Refuses (repeatOnto decoder items.length before) (items.flatMap encode) := by
  induction items generalizing before with
  | nil => exact absurd one.choose_spec.1 List.not_mem_nil
  | cons item items ih =>
    obtain ⟨first, rest⟩ := List.forall_mem_cons.mp each
    rw [List.flatMap_cons]
    rcases first with ⟨value, reads⟩ | refuses
    · by_cases later : ∃ item ∈ items, Refuses decoder (encode item)
      · exact reads.bind_refuses (ih rest later (value :: before))
      · obtain ⟨refused, member, refuses⟩ := one
        rcases List.mem_cons.mp member with rfl | member
        · exact (refuses.bind _).append _
        · exact absurd ⟨refused, member, refuses⟩ later
    · exact (refuses.bind _).append _

theorem refuses_replicate {ι : Type} {decoder : Decoder ε α} {items : List ι} {encode : ι → Bytes}
    (each : ∀ item ∈ items,
      (∃ value, Reads decoder (encode item) value) ∨ Refuses decoder (encode item))
    (one : ∃ item ∈ items, Refuses decoder (encode item)) :
    Refuses (Decoder.replicate items.length decoder) (items.flatMap encode) :=
  (refuses_repeatOnto each one []).map List.reverse

end Lockstep.Decoder
