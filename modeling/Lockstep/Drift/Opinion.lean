import Lockstep.Command.Frame
import Lockstep.Random.Stream

/-! # Opinions

A peer samples the state of a scope's random stream as it simulates. Its opinion on a tick is the list
of samples of the window that the tick closes. Two peers that simulated the same hold equal opinions;
otherwise the first sample in which they differ names the tick at which they parted.
-/

namespace Lockstep

/-- The state of a random stream at some point of a tick, folded to one word. -/
structure DriftSample where
  tick : Tick
  value : UInt64
  deriving DecidableEq, Repr

/-- What a peer sampled in the window that a tick closes. -/
structure DriftOpinion where
  scope : ScopeId
  tick : Tick
  samples : List DriftSample
  deriving DecidableEq, Repr

/-- A peer that parted from the others in a scope, and the tick at which it did. -/
structure Divergence where
  scope : ScopeId
  tick : Tick
  peer : PeerId
  deriving DecidableEq, Repr

namespace DriftSample

def encode (sample : DriftSample) : Bytes := .ofUInt32 sample.tick ++ .ofUInt64 sample.value

def decode : Decoder FormatError DriftSample := do
  let tick ← Decoder.uint32
  let value ← Decoder.uint64
  return { tick, value }

end DriftSample

namespace DriftOpinion

/-- Scope, tick, and the samples after their count. -/
def encode (opinion : DriftOpinion) : Except FormatError Bytes := do
  let count ← Bytes.ofCount? opinion.samples.length
  return .ofInt32 opinion.scope.toWire ++
    (.ofUInt32 opinion.tick ++ (count ++ opinion.samples.flatMap DriftSample.encode))

/-- Read one opinion from the front. -/
def decoder : Decoder FormatError DriftOpinion := do
  let scope ← Decoder.scope
  let tick ← Decoder.uint32
  let count ← Decoder.count
  let samples ← Decoder.replicate count DriftSample.decode
  return { scope, tick, samples }

/-- Read an opinion that fills the whole input. -/
def decode (input : Bytes) : Except FormatError DriftOpinion := decoder.decode input

/-- The earlier tick of the first two samples that differ; of a longer list, the tick of its first
sample beyond the other. -/
def firstDifferenceOf : List DriftSample → List DriftSample → Option Tick
  | a :: as, b :: bs => if a = b then firstDifferenceOf as bs else some (min a.tick b.tick)
  | a :: _, [] => some a.tick
  | [], b :: _ => some b.tick
  | [], [] => none

/-- The tick at which two opinions part. -/
def firstDifference (first second : DriftOpinion) : Option Tick :=
  firstDifferenceOf first.samples second.samples

end DriftOpinion

end Lockstep
