import Lockstep.Format.Script
import Lockstep.Proofs.Format.Descent
import Lockstep.Proofs.Format.Scalar

/-! # Scripts that read back

What is written item by item is read item by item. A script of reads on bytes that nobody wrote may fail as
often as it likes, and still goes forward and stays in its input (`scripts_read_back`). `ReadsBack` says of
bytes that a script of reads takes these and no others; it grows with the script by appending, so that each
kind of item is looked at alone.
-/

namespace Lockstep

open Decoder (maxBlobLength Reads)

/-! ## Writing -/

namespace ByteWriter

/-- A step appends these bytes as a whole, or it fails and appends nothing. -/
def Step.Writes (step : Step) (encoded : Except FormatError Bytes) : Prop :=
  ∀ writer, step.run writer = match encoded with
    | .ok bytes => .ok () { writer with bytes := writer.bytes ++ bytes }
    | .error error => .error error writer

namespace Step

theorem writes_count (n : Nat) : (count n).Writes (Bytes.ofCount? n) := by
  intro writer
  unfold count Bytes.ofCount?
  by_cases large : 65535 < n
  · rw [if_pos large, if_neg (Nat.not_le.mpr large)]
    rfl
  · rw [if_neg large, if_pos (Nat.not_lt.mp large)]
    rfl

/-- A length that does not fit is found before anything has been appended. -/
theorem writes_blob (blob : Bytes) : (Step.blob blob).Writes (Bytes.ofBlob? blob) := by
  intro writer
  unfold Step.blob Bytes.ofBlob?
  by_cases long : UInt32.size ≤ blob.length
  · rw [if_pos long, if_neg (Nat.not_lt.mpr long)]
    rfl
  · rw [if_neg long, if_pos (Nat.not_le.mp long)]
    dsimp only
    rw [← List.append_assoc]
    rfl

theorem writes_scalar (value : Scalar) : (scalar value).Writes value.encode := by
  cases value with
  | string text => exact writes_blob (.ofString text)
  | bytes bytes => exact writes_blob bytes
  | _ => exact fun _ => rfl

theorem writes_item (value : WireItem) : (item value).Writes value.encode := by
  cases value with
  | scalar value => exact writes_scalar value
  | count n => exact writes_count n
  | raw bytes => exact fun _ => rfl

end Step

variable {writer : ByteWriter} {item : WireItem} {bytes : Bytes} {error : FormatError}

theorem write_of_ok (written : item.encode = .ok bytes) :
    writer.write item = (.ok (), { writer with bytes := writer.bytes ++ bytes }) := by
  have writes := Step.writes_item item writer
  rw [written] at writes
  rw [write, writes]

theorem write_of_error (failed : item.encode = .error error) :
    writer.write item = (.error error, writer) := by
  have writes := Step.writes_item item writer
  rw [failed] at writes
  rw [write, writes]

/-- Of counts those above the limit cannot be written. -/
theorem write_count_eq_error_iff (writer : ByteWriter) (n : Nat) :
    writer.write (.count n) = (.error (.lengthOverflow n 65535), writer) ↔ 65535 < n := by
  by_cases small : n ≤ 65535
  · have written : (WireItem.count n).encode = .ok (.ofNat 2 n) := if_pos small
    rw [write_of_ok written]
    exact ⟨nofun, fun large => absurd small (Nat.not_le.mpr large)⟩
  · exact ⟨fun _ => Nat.not_le.mp small, fun _ => write_of_error (if_neg small)⟩

/-- An item that cannot be written leaves everything as it was. -/
theorem eq_of_write_eq_error {after : ByteWriter} (failed : writer.write item = (.error error, after)) :
    after = writer := by
  cases encoded : item.encode with
  | ok bytes => cases (write_of_ok encoded).symm.trans failed
  | error error => exact (congrArg Prod.snd ((write_of_error encoded).symm.trans failed)).symm

/-- Write items one after another, whether or not those before could be written. -/
def writeAll (writer : ByteWriter) : List WireItem → List (Except FormatError Unit) × ByteWriter
  | [] => ([], writer)
  | item :: items =>
    let (answer, writer) := writer.write item
    let (answers, writer) := writer.writeAll items
    (answer :: answers, writer)

theorem writeAll_cons (writer : ByteWriter) (item : WireItem) (items : List WireItem) :
    writer.writeAll (item :: items) =
      ((writer.write item).1 :: ((writer.write item).2.writeAll items).1,
        ((writer.write item).2.writeAll items).2) := rfl

end ByteWriter

/-! ## Scripts -/

namespace WireItem

/-- Counts fit into their field, texts and byte strings are not too long to be read. -/
def WithinLimits : WireItem → Prop
  | scalar value => value.blobLength ≤ maxBlobLength
  | count n => n ≤ 65535
  | raw _ => True

instance : (item : WireItem) → Decidable item.WithinLimits
  | scalar value => inferInstanceAs (Decidable (value.blobLength ≤ maxBlobLength))
  | count n => inferInstanceAs (Decidable (n ≤ 65535))
  | raw _ => inferInstanceAs (Decidable True)

/-- What to ask for to read an item. -/
def kind : WireItem → WireKind
  | scalar value => .scalar value.kind
  | count _ => .count
  | raw _ => .remainder

/-- The parts in which an item can be read. Raw bytes are written without their number, so they are read
byte by byte. -/
def pieces : WireItem → List WireItem
  | raw bytes => bytes.map fun byte => scalar (.u8 byte)
  | item => [item]

end WireItem

namespace ByteCursor

/-- Read one after another, whether or not the reads before succeeded. -/
def readAll (cursor : ByteCursor) : List WireKind → List (Except FormatError WireItem) × ByteCursor
  | [] => ([], cursor)
  | kind :: kinds =>
    let (answer, cursor) := cursor.read kind.decode
    let (answers, cursor) := cursor.readAll kinds
    (answer :: answers, cursor)

theorem readAll_cons (cursor : ByteCursor) (kind : WireKind) (kinds : List WireKind) :
    cursor.readAll (kind :: kinds) =
      ((cursor.read kind.decode).1 :: ((cursor.read kind.decode).2.readAll kinds).1,
        ((cursor.read kind.decode).2.readAll kinds).2) := rfl

theorem readAll_append (cursor : ByteCursor) (first second : List WireKind) :
    cursor.readAll (first ++ second) =
      ((cursor.readAll first).1 ++ ((cursor.readAll first).2.readAll second).1,
        ((cursor.readAll first).2.readAll second).2) := by
  induction first generalizing cursor with
  | nil => rfl
  | cons kind first ih =>
    rw [List.cons_append, readAll_cons, ih]
    rfl

end ByteCursor

/-- Reading the kinds of these items takes these bytes, whatever follows them, and comes to the items. -/
def ReadsBack (bytes : Bytes) (items : List WireItem) : Prop :=
  ∀ total rest context, (ByteCursor.mk total (bytes ++ rest) context).readAll (items.map WireItem.kind) =
    (items.map .ok, ⟨total, rest, context⟩)

namespace ReadsBack

variable {bytes first second : Bytes} {items items' : List WireItem} {item : WireItem}

theorem nil : ReadsBack [] [] := fun _ _ _ => rfl

theorem append (left : ReadsBack first items) (right : ReadsBack second items') :
    ReadsBack (first ++ second) (items ++ items') := by
  intro total rest context
  rw [List.map_append, ByteCursor.readAll_append, List.append_assoc, left, right, List.map_append]

theorem singleton (reads : Reads item.kind.decode bytes item) : ReadsBack bytes [item] := by
  intro total rest context
  have read : (ByteCursor.mk total (bytes ++ rest) context).read item.kind.decode =
      (.ok item, ⟨total, rest, context⟩) := by
    rw [ByteCursor.read, reads rest]
  rw [List.map_singleton, ByteCursor.readAll_cons, read]
  rfl

theorem raw (bytes : Bytes) : ReadsBack bytes (WireItem.raw bytes).pieces := by
  induction bytes with
  | nil => exact nil
  | cons byte bytes ih =>
    let piece : WireItem := .scalar (.u8 byte)
    have reads : Reads piece.kind.decode [byte] piece :=
      ((Decoder.reads_uint8 byte).map Scalar.u8).map WireItem.scalar
    exact (singleton reads).append ih

end ReadsBack

/-- A value that is short enough to be read has bytes. -/
theorem Scalar.exists_encode {value : Scalar} (short : value.blobLength ≤ maxBlobLength) :
    ∃ bytes, value.encode = .ok bytes := by
  have fits (blob : Bytes) (short : blob.length ≤ maxBlobLength) :
      ∃ bytes, Bytes.ofBlob? blob = .ok bytes :=
    ⟨_, if_pos (Nat.lt_of_le_of_lt short (by decide))⟩
  cases value with
  | string text => exact fits (.ofString text) short
  | bytes blob => exact fits blob short
  | _ => exact ⟨_, rfl⟩

/-- What an item within limits is written as reads back. -/
theorem WireItem.readsBack {item : WireItem} (within : item.WithinLimits) :
    ∃ bytes, item.encode = .ok bytes ∧ ReadsBack bytes item.pieces := by
  cases item with
  | scalar value =>
    obtain ⟨bytes, written⟩ := Scalar.exists_encode within
    exact ⟨bytes, written, .singleton ((Scalar.reads written within).map WireItem.scalar)⟩
  | count n =>
    have written : Bytes.ofCount? n = .ok (.ofNat 2 n) := if_pos within
    exact ⟨_, written, .singleton ((Decoder.reads_count written).map WireItem.count)⟩
  | raw bytes => exact ⟨bytes, rfl, .raw bytes⟩

/-- A script within limits is written as it is, behind what was there, and reads back. -/
theorem ByteWriter.writeAll_of_within {items : List WireItem}
    (within : ∀ item ∈ items, item.WithinLimits) (writer : ByteWriter) :
    ∃ bytes, writer.writeAll items =
        (items.map fun _ => .ok (), { writer with bytes := writer.bytes ++ bytes }) ∧
      ReadsBack bytes (items.flatMap WireItem.pieces) := by
  induction items generalizing writer with
  | nil => exact ⟨[], by rw [List.append_nil]; rfl, .nil⟩
  | cons item items ih =>
    obtain ⟨first, rest⟩ := List.forall_mem_cons.mp within
    obtain ⟨bytes, written, reads⟩ := WireItem.readsBack first
    obtain ⟨more, wrote, readsMore⟩ := ih rest { writer with bytes := writer.bytes ++ bytes }
    refine ⟨bytes ++ more, ?_, reads.append readsMore⟩
    rw [writeAll_cons, write_of_ok written, wrote, ← List.append_assoc]
    rfl

/-! ## Going forward -/

namespace ByteCursor

/-- A cursor only moves to what the decoder has left. -/
theorem snd_read {ε α : Type} (cursor : ByteCursor) (decoder : Decoder ε α) :
    (cursor.read decoder).2 = { cursor with rest := decoder.rest cursor.rest } := by
  rw [read, Decoder.rest]
  cases decoder cursor.rest with
  | ok value rest => rfl
  | error error rest => rfl

/-- After a script of reads, what is left is an end of what was left before. -/
theorem suffix_readAll (cursor : ByteCursor) (kinds : List WireKind) :
    (cursor.readAll kinds).2.rest <:+ cursor.rest ∧
      (cursor.readAll kinds).2.total = cursor.total := by
  induction kinds generalizing cursor with
  | nil => exact ⟨List.suffix_refl _, rfl⟩
  | cons kind kinds ih =>
    obtain ⟨later, same⟩ := ih (cursor.read kind.decode).2
    rw [snd_read] at later same
    rw [readAll_cons, snd_read]
    exact ⟨later.trans (kind.descends cursor.rest), same⟩

/-- A cursor that started at the first byte of an input has gone so far as its position says. -/
theorem eq_drop_position {cursor : ByteCursor} {input : Bytes} (whole : cursor.total = input.length)
    (left : cursor.rest <:+ input) : cursor.rest = input.drop cursor.position := by
  rw [position, remaining, whole]
  exact List.suffix_iff_eq_drop.mp left

/-- Whatever is read, and whether or not it can be, the position does not go back or beyond the input. -/
theorem position_readAll (input : Bytes) (context : WireContext) (kinds more : List WireKind) :
    let before := ((ofBytes input context).readAll kinds).2
    let later := (before.readAll more).2
    before.position ≤ later.position ∧ later.position ≤ input.length ∧
      later.rest = input.drop later.position := by
  intro before later
  obtain ⟨started, whole⟩ := (ofBytes input context).suffix_readAll kinds
  obtain ⟨went, same⟩ := before.suffix_readAll more
  have total : later.total = input.length := same.trans whole
  refine ⟨?_, ?_, eq_drop_position total (went.trans started)⟩
  · have total' : before.total = input.length := whole
    rw [position, position, total, total']
    exact Nat.sub_le_sub_left went.length_le _
  · rw [position, total]
    exact Nat.sub_le _ _

end ByteCursor

/-! ## Scripts of reads and writes -/

/-- A script within limits reads back as it was written, up to what follows it. -/
theorem script_reads_back {items : List WireItem} (within : ∀ item ∈ items, item.WithinLimits)
    (context context' : WireContext) (suffix : Bytes) :
    let written := ByteWriter.writeAll { context } items
    let pieces := items.flatMap WireItem.pieces
    let read :=
      (ByteCursor.ofBytes (written.2.bytes ++ suffix) context').readAll (pieces.map WireItem.kind)
    (∀ answer ∈ written.1, answer = .ok ()) ∧ read.1 = pieces.map .ok ∧ read.2.rest = suffix ∧
      read.2.position = written.2.bytes.length ∧
      (read.2.read WireKind.remainder.decode).1 = .ok (.raw suffix) := by
  obtain ⟨bytes, written, reads⟩ := ByteWriter.writeAll_of_within within { context }
  rw [written]
  dsimp only
  rw [List.nil_append, ByteCursor.ofBytes, reads]
  refine ⟨?_, rfl, rfl, ?_, rfl⟩
  · intro answer member
    obtain ⟨_, -, same⟩ := List.mem_map.mp member
    exact same.symm
  · rw [ByteCursor.position, ByteCursor.remaining, List.length_append]
    exact Nat.add_sub_cancel bytes.length suffix.length

/-- Items within limits, written one after another and read one after another, are the same items, with the
same bits if they are floating-point numbers, and what has not been read is what follows them. An item that
cannot be written, such as a count above its limit, leaves what was there. Whatever kinds are read from
whatever bytes, the position only goes forward, also where reads fail, and what has not been read is always
the input behind it. -/
theorem scripts_read_back :
    (∀ items : List WireItem, (∀ item ∈ items, item.WithinLimits) →
      ∀ (context context' : WireContext) (suffix : Bytes),
        let written := ByteWriter.writeAll { context } items
        let pieces := items.flatMap WireItem.pieces
        let read :=
          (ByteCursor.ofBytes (written.2.bytes ++ suffix) context').readAll (pieces.map WireItem.kind)
        (∀ answer ∈ written.1, answer = .ok ()) ∧ read.1 = pieces.map .ok ∧ read.2.rest = suffix ∧
          read.2.position = written.2.bytes.length ∧
          (read.2.read WireKind.remainder.decode).1 = .ok (.raw suffix)) ∧
      (∀ (writer after : ByteWriter) (item : WireItem) (error : FormatError),
        writer.write item = (.error error, after) → after = writer) ∧
      (∀ (writer : ByteWriter) (n : Nat),
        writer.write (.count n) = (.error (.lengthOverflow n 65535), writer) ↔ 65535 < n) ∧
      ∀ (input : Bytes) (context : WireContext) (kinds more : List WireKind),
        let before := ((ByteCursor.ofBytes input context).readAll kinds).2
        let later := (before.readAll more).2
        before.position ≤ later.position ∧ later.position ≤ input.length ∧
          later.rest = input.drop later.position :=
  ⟨fun _ within => script_reads_back within, fun _ _ _ _ => ByteWriter.eq_of_write_eq_error,
    ByteWriter.write_count_eq_error_iff, ByteCursor.position_readAll⟩

/-- A script with a NaN that has a payload, a text beyond ASCII, raw bytes in the middle and the largest
count. -/
def mixedScript : List WireItem :=
  [.scalar (.i64 (-2)), .scalar (.f64 ⟨0x7ff8000000000001⟩), .scalar (.string "né"), .raw [7, 0],
    .scalar (.bytes [1, 2, 3]), .count 65535]

theorem mixed_script_reads_back :
    (∀ item ∈ mixedScript, item.WithinLimits) ∧
      (let written := ByteWriter.writeAll {} mixedScript
      let pieces := mixedScript.flatMap WireItem.pieces
      let read := (ByteCursor.ofBytes (written.2.bytes ++ [9]) {}).readAll (pieces.map WireItem.kind)
      (∀ answer ∈ written.1, answer = .ok ()) ∧ read.1 = pieces.map .ok ∧ read.2.rest = [9] ∧
        read.2.position = written.2.bytes.length ∧
        (read.2.read WireKind.remainder.decode).1 = .ok (.raw [9])) ∧
      (({} : ByteWriter).write (.count 65536)).2 = {} := by
  have within : ∀ item ∈ mixedScript, item.WithinLimits := by decide
  obtain ⟨script, failing, counts, -⟩ := scripts_read_back
  have refused := (counts {} 65536).mpr (by decide)
  have failed : ({} : ByteWriter).write (.count 65536) =
      (.error (.lengthOverflow 65536 65535), (({} : ByteWriter).write (.count 65536)).2) :=
    Prod.ext (congrArg Prod.fst refused) rfl
  exact ⟨within, script mixedScript within {} {} [9], failing {} _ (.count 65536) _ failed⟩

end Lockstep
