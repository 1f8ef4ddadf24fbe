import Lockstep.Random.Stream

/-! # Streams on a generator

A stream draws its words from a generator, which it can seed, read and move, but not look into. Beside
the generator it keeps the seed, and when it is put back to a state with the same seed, it keeps the
generator too and only moves it.
-/

namespace Lockstep

/-- What a stream asks of a generator of words. -/
class WordGenerator (G : Type) where
  ofSeed : UInt64 → G
  nextU32 : G → UInt32 × G
  nextU64 : G → UInt64 × G
  /-- The position of the next word. -/
  wordPos : G → Nat
  setWordPos : G → Nat → G

/-- A position is a number of 68 bits, and the bits above them are ignored. -/
instance : WordGenerator RandomStream where
  ofSeed := .ofSeed
  nextU32 := RandomStream.nextU32
  nextU64 := RandomStream.nextU64
  wordPos := RandomStream.position
  setWordPos stream position := .ofState { seed := stream.seed, wordPos := position }

/-- A generator and the seed that it was made from. -/
structure SeededStream (G : Type) where
  generator : G
  seed : UInt64

namespace SeededStream

variable {G : Type} [WordGenerator G]

/-- The stream of a seed, at its first word. -/
def ofSeed (seed : UInt64) : SeededStream G := ⟨WordGenerator.ofSeed seed, seed⟩

/-- The stream of a scope. -/
def ofScope (base : UInt64) (scope : ScopeId) : SeededStream G := ofSeed (RandomStream.scopeSeed base scope)

/-- Draw one word. -/
def nextU32 (stream : SeededStream G) : UInt32 × SeededStream G :=
  let (word, generator) := WordGenerator.nextU32 stream.generator
  (word, { stream with generator })

/-- Draw two words at once. -/
def nextU64 (stream : SeededStream G) : UInt64 × SeededStream G :=
  let (words, generator) := WordGenerator.nextU64 stream.generator
  (words, { stream with generator })

/-- Draw from a range; an empty range gives its lower end and takes no word. -/
def nextInRange (lo hi : UInt32) (stream : SeededStream G) : UInt32 × SeededStream G :=
  if hi ≤ lo then (lo, stream)
  else
    let (word, stream) := stream.nextU32
    (RandomStream.scale lo hi word, stream)

/-- Draw a number from zero up to but not including one: the top 24 bits of a word. -/
def nextFraction (stream : SeededStream G) : Binary32 × SeededStream G :=
  let (word, stream) := stream.nextU32
  (RandomStream.fraction24 (word.toNat >>> 8), stream)

/-- Draw a number and compare it with a probability. -/
def chance (probability : Binary32) (stream : SeededStream G) : Bool × SeededStream G :=
  let (x, stream) := stream.nextFraction
  (RandomStream.isBelow x probability, stream)

/-- What has to be saved of a stream. -/
def state (stream : SeededStream G) : StreamState := ⟨stream.seed, WordGenerator.wordPos stream.generator⟩

/-- Put a stream at a saved state. Only another seed takes another generator. -/
def restore (stream : SeededStream G) (state : StreamState) : SeededStream G :=
  let stream := if state.seed ≠ stream.seed then ofSeed state.seed else stream
  { stream with generator := WordGenerator.setWordPos stream.generator state.wordPos }

end SeededStream

end Lockstep
