import Lockstep.Format.Float
import Lockstep.Ident
import Lockstep.Random.Block

/-! # Random streams

Each scope draws from a stream of its own. A stream is a seed and the position of the next word;
positions wrap at `2 ^ 68`. Since nothing else is kept, a stream put back to a saved state draws
the same values again (`restore_state`).
-/

namespace Lockstep

/-- A saved position of a random stream. As data it may hold any position up to `2 ^ 128`. -/
structure StreamState where
  seed : UInt64
  wordPos : Nat
  deriving DecidableEq, Repr, Inhabited

namespace StreamState

def rotateLeft64 (x : UInt64) (n : Nat) : UInt64 :=
  (x <<< UInt64.ofNat n) ||| (x >>> UInt64.ofNat ((64 - n) % 64))

/-- One word that stands for the whole state in comparisons between peers. -/
def fold (state : StreamState) : UInt64 :=
  state.seed ^^^ rotateLeft64 (UInt64.ofNat state.wordPos) 17 ^^^
    rotateLeft64 (UInt64.ofNat (state.wordPos / UInt64.size)) 41

end StreamState

/-- The number of positions of a stream: sixteen words in each of `2 ^ 64` blocks. -/
def RandomStream.period : Nat := 16 * UInt64.size

/-- A random stream: the seed and the position of the next word. -/
structure RandomStream where
  seed : UInt64
  position : Nat
  inRange : position < RandomStream.period
  deriving DecidableEq

namespace RandomStream

/-- The stream of a seed, at its first word. -/
def ofSeed (seed : UInt64) : RandomStream := ⟨seed, 0, by decide⟩

instance : Inhabited RandomStream := ⟨ofSeed 0⟩

def seedFactor : UInt64 := 0x9e3779b97f4a7c15

/-- The seed of a scope's stream: the base seed mixed with the scope's wire form. -/
def scopeSeed (base : UInt64) (scope : ScopeId) : UInt64 :=
  base ^^^ (scope.toWire.toInt64 + 2).toUInt64 * seedFactor

/-- The stream of a scope. -/
def ofScope (base : UInt64) (scope : ScopeId) : RandomStream := ofSeed (scopeSeed base scope)

/-- The stream `words` words later. -/
def advance (stream : RandomStream) (words : Nat) : RandomStream :=
  ⟨stream.seed, (stream.position + words) % period, Nat.mod_lt _ (by decide)⟩

/-- The word at the stream's position. -/
def peek (stream : RandomStream) : UInt32 := Random.wordAt stream.seed stream.position

/-- Draw one word. -/
def nextU32 (stream : RandomStream) : UInt32 × RandomStream := (stream.peek, stream.advance 1)

/-- Draw two words, the low half first. -/
def nextU64 (stream : RandomStream) : UInt64 × RandomStream :=
  let (low, stream) := stream.nextU32
  let (high, stream) := stream.nextU32
  (UInt64.ofNat (low.toNat + UInt32.size * high.toNat), stream)

/-- Draw a number of words. -/
def drawU32s : Nat → RandomStream → List UInt32 × RandomStream
  | 0, stream => ([], stream)
  | count + 1, stream =>
    let (word, stream) := stream.nextU32
    let (words, stream) := drawU32s count stream
    (word :: words, stream)

/-- Scale a word into the range from `lo` up to but not including `hi`. -/
def scale (lo hi word : UInt32) : UInt32 :=
  lo + UInt32.ofNat (word.toNat * (hi.toNat - lo.toNat) / UInt32.size)

/-- Draw from a range; an empty range gives its lower end and takes no word. -/
def nextInRange (lo hi : UInt32) (stream : RandomStream) : UInt32 × RandomStream :=
  if hi ≤ lo then (lo, stream)
  else
    let (word, stream) := stream.nextU32
    (scale lo hi word, stream)

/-- The single-precision number `n / 2 ^ 24`, exact for `n` below `2 ^ 24`. -/
def fraction24 (n : Nat) : Binary32 :=
  if n = 0 then ⟨0⟩
  else ⟨UInt32.ofNat (((n.log2 + 103) <<< 23) + ((n <<< (23 - n.log2)) - (1 <<< 23)))⟩

/-- Draw a number from zero up to but not including one: the top 24 bits of a word. -/
def nextFraction (stream : RandomStream) : Binary32 × RandomStream :=
  let (word, stream) := stream.nextU32
  (fraction24 (word.toNat >>> 8), stream)

/-- Whether a number from zero to below one lies below `bound`. A bound of one or more is above every
such number; a negative bound or one that is no number is above none. -/
def isBelow (x bound : Binary32) : Bool := !bound.isNaN && !bound.isNegative && x.bits < bound.bits

/-- Draw a number and compare it with a probability. -/
def chance (probability : Binary32) (stream : RandomStream) : Bool × RandomStream :=
  let (x, stream) := stream.nextFraction
  (isBelow x probability, stream)

/-- What has to be saved of a stream. -/
def state (stream : RandomStream) : StreamState := ⟨stream.seed, stream.position⟩

/-- The stream at a saved state. -/
def ofState (state : StreamState) : RandomStream :=
  ⟨state.seed, state.wordPos % period, Nat.mod_lt _ (by decide)⟩

/-- Put a stream at a saved state; nothing of where it stood remains. -/
def restore (_ : RandomStream) (state : StreamState) : RandomStream := ofState state

theorem ofState_state (stream : RandomStream) : ofState stream.state = stream := by
  cases stream with
  | mk seed position inRange =>
    show RandomStream.mk seed (position % period) _ = _
    congr 1
    exact Nat.mod_eq_of_lt inRange

theorem restore_state (first second : RandomStream) : first.restore second.state = second :=
  ofState_state second

end RandomStream

end Lockstep
