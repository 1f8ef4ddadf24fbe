import Lockstep.Format.Bytes

/-! # Digests

The 64-bit FNV-1a digest of a byte string. It runs over the bytes one at a time, so a digest can be
continued: the digest of an appended string is reached from the digest of its first part.
-/

namespace Lockstep

/-- A digest, and the state from which it continues. -/
abbrev Digest := UInt64

namespace Digest

/-- The digest of nothing. -/
def start : Digest := 0xcbf29ce484222325

def factor : UInt64 := 0x100000001b3

/-- Take in one byte. -/
def step (digest : Digest) (byte : UInt8) : Digest := (digest ^^^ byte.toUInt64) * factor

/-- Take in more bytes. -/
def update (digest : Digest) (bytes : Bytes) : Digest := bytes.foldl step digest

/-- The digest of a byte string. -/
def ofBytes (bytes : Bytes) : Digest := update start bytes

theorem update_append (digest : Digest) (first second : Bytes) :
    digest.update (first ++ second) = (digest.update first).update second :=
  List.foldl_append

/-- The bytes by which a text enters a digest: its length, then itself. -/
def textBytes (text : String) : Bytes :=
  .ofUInt32 (UInt32.ofNat text.utf8ByteSize) ++ .ofString text

end Digest

end Lockstep
