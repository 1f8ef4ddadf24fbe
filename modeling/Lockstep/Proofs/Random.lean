import Lockstep.Random.Generator
import Mathlib.Algebra.Ring.Nat

/-! # Saving and restoring random streams

A generator gives the words of its seed one after another, from a position that can be read and set and
that wraps at `2 ^ 68` (`WordGenerator.Lawful`). A stream on such a generator is determined by its state:
what a draw gives, and where it leaves the stream, is read off the words from the state on
(`SeededStream.draw_eq`). What carries this is that the generator of a stream was made from the seed that
the stream keeps beside it, however often the stream has been put from one seed to another
(`SeededStream.Reached.sound`). So a stream that is put back to the state of another one draws what the
other one draws (`SeededStream.restore_exact`).
-/

namespace Lockstep

/-! ## Draws -/

/-- What can be drawn from a stream. -/
inductive Draw where
  | word
  | pair
  | inRange (lo hi : UInt32)
  | fraction
  | chance (probability : Binary32)
  deriving DecidableEq

/-- What a draw gives. -/
inductive Drawn where
  | word (word : UInt32)
  | pair (words : UInt64)
  | number (number : Binary32)
  | verdict (verdict : Bool)
  deriving DecidableEq

namespace Draw

/-- How many words a draw takes. -/
def words : Draw → Nat
  | word => 1
  | pair => 2
  | inRange lo hi => if hi ≤ lo then 0 else 1
  | fraction => 1
  | chance _ => 1

/-- What a draw makes of the words ahead. -/
def read (ahead : Nat → UInt32) : Draw → Drawn
  | word => .word (ahead 0)
  | pair => .pair (UInt64.ofNat ((ahead 0).toNat + UInt32.size * (ahead 1).toNat))
  | inRange lo hi => .word (if hi ≤ lo then lo else RandomStream.scale lo hi (ahead 0))
  | fraction => .number (RandomStream.fraction24 ((ahead 0).toNat >>> 8))
  | chance probability =>
    .verdict (RandomStream.isBelow (RandomStream.fraction24 ((ahead 0).toNat >>> 8)) probability)

end Draw

namespace StreamState

/-- The state so many words later. -/
def later (state : StreamState) (words : Nat) : StreamState :=
  { state with wordPos := (state.wordPos + words) % RandomStream.period }

/-- The words ahead of a state, where `wordAt` gives the words of each seed. -/
def ahead (wordAt : UInt64 → Nat → UInt32) (state : StreamState) (place : Nat) : UInt32 :=
  wordAt state.seed ((state.wordPos + place) % RandomStream.period)

theorem later_zero {state : StreamState} (inside : state.wordPos < RandomStream.period) :
    state.later 0 = state := by
  rw [later, Nat.add_zero, Nat.mod_eq_of_lt inside]

theorem ahead_zero {state : StreamState} (inside : state.wordPos < RandomStream.period)
    (wordAt : UInt64 → Nat → UInt32) : state.ahead wordAt 0 = wordAt state.seed state.wordPos := by
  rw [ahead, Nat.add_zero, Nat.mod_eq_of_lt inside]

end StreamState

/-! ## Generators -/

/-- A generator gives the words of the seed that it was made from. A word is taken from the current
position, and two at once are the low half and the high half of what they make. Of a position that is
set, whatever lies above the period is ignored. `runs` says of a generator and a seed that the one was
made from the other. -/
structure WordGenerator.Lawful (G : Type) [WordGenerator G] (wordAt : UInt64 → Nat → UInt32)
    (runs : G → UInt64 → Prop) : Prop where
  ofSeed (seed : UInt64) : runs (ofSeed seed) seed ∧ wordPos (ofSeed seed : G) = 0
  nextU32 {generator : G} {seed : UInt64} : runs generator seed →
    (nextU32 generator).1 = wordAt seed (wordPos generator) ∧ runs (nextU32 generator).2 seed ∧
      wordPos (nextU32 generator).2 = (wordPos generator + 1) % RandomStream.period
  nextU64 {generator : G} {seed : UInt64} : runs generator seed →
    (nextU64 generator).1 = UInt64.ofNat ((wordAt seed (wordPos generator)).toNat +
        UInt32.size * (wordAt seed ((wordPos generator + 1) % RandomStream.period)).toNat) ∧
      runs (nextU64 generator).2 seed ∧
      wordPos (nextU64 generator).2 = (wordPos generator + 2) % RandomStream.period
  setWordPos {generator : G} {seed : UInt64} {position : Nat} : runs generator seed →
    position < 2 ^ 128 → runs (setWordPos generator position) seed ∧
      wordPos (setWordPos generator position) = position % RandomStream.period

/-- Streams of the words themselves are lawful generators. -/
theorem RandomStream.lawful :
    WordGenerator.Lawful RandomStream Random.wordAt fun stream seed => stream.seed = seed where
  ofSeed _ := ⟨rfl, rfl⟩
  nextU32 := by
    rintro stream _ rfl
    simp only [WordGenerator.nextU32, WordGenerator.wordPos, nextU32, peek, advance, and_self]
  nextU64 := by
    rintro stream _ rfl
    simp only [WordGenerator.nextU64, WordGenerator.wordPos, nextU64, nextU32, peek, advance,
      Nat.mod_add_mod, Nat.add_assoc, Nat.reduceAdd, and_self]
  setWordPos := by
    rintro stream _ position rfl _
    simp only [WordGenerator.setWordPos, WordGenerator.wordPos, ofState, and_self]

namespace SeededStream

variable {G : Type} [WordGenerator G] {wordAt : UInt64 → Nat → UInt32} {runs : G → UInt64 → Prop}
  {stream first second : SeededStream G}

/-- Make a draw. -/
def draw (stream : SeededStream G) : Draw → Drawn × SeededStream G
  | .word => stream.nextU32.map .word id
  | .pair => stream.nextU64.map .pair id
  | .inRange lo hi => (stream.nextInRange lo hi).map .word id
  | .fraction => stream.nextFraction.map .number id
  | .chance probability => (stream.chance probability).map .verdict id

/-- Make draws, one after another. -/
def drawAll (stream : SeededStream G) : List Draw → List Drawn × SeededStream G
  | [] => ([], stream)
  | draw :: draws =>
    let (drawn, stream) := stream.draw draw
    let (rest, stream) := stream.drawAll draws
    (drawn :: rest, stream)

/-- The streams that can come about. -/
inductive Reached : SeededStream G → Prop
  | ofSeed (seed : UInt64) : Reached (ofSeed seed)
  | ofScope (base : UInt64) (scope : ScopeId) : Reached (ofScope base scope)
  | draw {stream : SeededStream G} (reached : Reached stream) (draw : Draw) :
    Reached (stream.draw draw).2
  | restore {stream : SeededStream G} (reached : Reached stream) {state : StreamState}
    (inside : state.wordPos < 2 ^ 128) : Reached (stream.restore state)

/-- The generator was made from the seed beside it, and its position is one of the period. -/
structure Sound (runs : G → UInt64 → Prop) (stream : SeededStream G) : Prop where
  runs : runs stream.generator stream.seed
  inside : stream.state.wordPos < RandomStream.period

theorem sound_ofSeed (lawful : WordGenerator.Lawful G wordAt runs) (seed : UInt64) :
    (ofSeed seed : SeededStream G).Sound runs where
  runs := (lawful.ofSeed seed).1
  inside := by
    rw [state, ofSeed, (lawful.ofSeed seed).2]
    exact Nat.zero_lt_succ _

/-- A stream whose generator goes on with the words of its seed is where its position says. -/
theorem later {generator : G} {words : Nat} (goes : runs generator stream.seed)
    (position : WordGenerator.wordPos generator = (stream.state.wordPos + words) % RandomStream.period) :
    ({ stream with generator } : SeededStream G).Sound runs ∧
      ({ stream with generator } : SeededStream G).state = stream.state.later words := by
  have same : ({ stream with generator } : SeededStream G).state = stream.state.later words := by
    rw [StreamState.later, ← position]
    rfl
  refine ⟨⟨goes, ?_⟩, same⟩
  rw [same]
  exact Nat.mod_lt _ (Nat.zero_lt_succ _)

theorem nextU32_eq (lawful : WordGenerator.Lawful G wordAt runs) (sound : stream.Sound runs) :
    stream.nextU32.1 = stream.state.ahead wordAt 0 ∧ stream.nextU32.2.Sound runs ∧
      stream.nextU32.2.state = stream.state.later 1 := by
  obtain ⟨word, goes, position⟩ := lawful.nextU32 sound.runs
  rw [StreamState.ahead_zero sound.inside]
  exact ⟨word, later goes position⟩

/-- A draw reads the words ahead, and leaves the stream behind those that it takes. -/
theorem draw_eq (lawful : WordGenerator.Lawful G wordAt runs) (sound : stream.Sound runs) (draw : Draw) :
    (stream.draw draw).1 = draw.read (stream.state.ahead wordAt) ∧ (stream.draw draw).2.Sound runs ∧
      (stream.draw draw).2.state = stream.state.later draw.words := by
  obtain ⟨word, taken⟩ := nextU32_eq lawful sound
  cases draw with
  | word =>
    rw [Draw.read, ← word]
    exact ⟨rfl, taken⟩
  | pair =>
    obtain ⟨words, goes, position⟩ := lawful.nextU64 sound.runs
    rw [Draw.read, StreamState.ahead_zero sound.inside]
    exact ⟨congrArg Drawn.pair words, later goes position⟩
  | inRange lo hi =>
    rw [SeededStream.draw, nextInRange, Draw.read, Draw.words, ← word]
    split
    next => exact ⟨rfl, sound, (StreamState.later_zero sound.inside).symm⟩
    next => exact ⟨rfl, taken⟩
  | fraction =>
    rw [Draw.read, ← word]
    exact ⟨rfl, taken⟩
  | chance probability =>
    rw [Draw.read, ← word]
    exact ⟨rfl, taken⟩

/-- Another seed takes another generator. -/
theorem restore_of_ne {state : StreamState} (other : state.seed ≠ stream.seed) : stream.restore state =
    ⟨WordGenerator.setWordPos (WordGenerator.ofSeed state.seed) state.wordPos, state.seed⟩ := by
  rw [restore, if_pos other]
  rfl

/-- With the same seed the stream keeps its own. -/
theorem restore_of_eq {state : StreamState} (same : state.seed = stream.seed) : stream.restore state =
    ⟨WordGenerator.setWordPos stream.generator state.wordPos, state.seed⟩ := by
  rw [restore, if_neg (not_not_intro same), same]

/-- Either way, the generator of a stream that is put back was made from its new seed. -/
theorem restore_eq (lawful : WordGenerator.Lawful G wordAt runs) (sound : stream.Sound runs)
    {state : StreamState} (inside : state.wordPos < 2 ^ 128) :
    (stream.restore state).Sound runs ∧
      (stream.restore state).state = { state with wordPos := state.wordPos % RandomStream.period } := by
  obtain ⟨kept, made, restored⟩ : ∃ kept : G, runs kept state.seed ∧
      stream.restore state = ⟨WordGenerator.setWordPos kept state.wordPos, state.seed⟩ := by
    by_cases same : state.seed = stream.seed
    · exact ⟨stream.generator, same ▸ sound.runs, restore_of_eq same⟩
    · exact ⟨WordGenerator.ofSeed state.seed, (lawful.ofSeed state.seed).1, restore_of_ne same⟩
  obtain ⟨goes, position⟩ := lawful.setWordPos made inside
  rw [restored]
  refine ⟨⟨goes, ?_⟩, ?_⟩
  · exact Nat.lt_of_le_of_lt (Nat.le_of_eq position) (Nat.mod_lt _ (Nat.zero_lt_succ _))
  · rw [SeededStream.state, position]

/-- However a stream has come about, its generator was made from the seed beside it. -/
theorem Reached.sound (lawful : WordGenerator.Lawful G wordAt runs) (reached : stream.Reached) :
    stream.Sound runs := by
  induction reached with
  | ofSeed seed => exact sound_ofSeed lawful seed
  | ofScope base scope => exact sound_ofSeed lawful _
  | draw _ draw ih => exact (draw_eq lawful ih draw).2.1
  | restore _ inside ih => exact (restore_eq lawful ih inside).1

/-! ## Streams in the same state -/

/-- Whatever is drawn from two streams, they give the same and stay in the same state. -/
structure Interchangeable (first second : SeededStream G) : Prop where
  drawn (draws : List Draw) : (first.drawAll draws).1 = (second.drawAll draws).1
  state (draws : List Draw) : (first.drawAll draws).2.state = (second.drawAll draws).2.state

/-- Streams in the same state are interchangeable: each draw gives the same, and leaves them in the same
state. -/
theorem Sound.interchangeable (lawful : WordGenerator.Lawful G wordAt runs) (sound : first.Sound runs)
    (sound' : second.Sound runs) (same : first.state = second.state) : first.Interchangeable second := by
  suffices both : ∀ draws : List Draw, (first.drawAll draws).1 = (second.drawAll draws).1 ∧
      (first.drawAll draws).2.state = (second.drawAll draws).2.state from
    ⟨fun draws => (both draws).1, fun draws => (both draws).2⟩
  intro draws
  induction draws generalizing first second with
  | nil => exact ⟨rfl, same⟩
  | cons draw draws ih =>
    obtain ⟨drawn, kept, moved⟩ := draw_eq lawful sound draw
    obtain ⟨drawn', kept', moved'⟩ := draw_eq lawful sound' draw
    obtain ⟨rest, state⟩ := ih kept kept' (by rw [moved, moved', same])
    refine ⟨?_, state⟩
    have heads : (first.draw draw).1 = (second.draw draw).1 := by rw [drawn, drawn', same]
    exact List.cons_eq_cons.mpr ⟨heads, rest⟩

/-- What the state of a stream is good for. -/
structure SavesExactly (wordAt : UInt64 → Nat → UInt32) (first second : SeededStream G) : Prop where
  /-- A stream that is put back to the state of another one is as good as that one. -/
  restored : (second.restore first.state).Interchangeable first
  /-- So are two streams that happen to be in the same state. -/
  same : first.state = second.state → first.Interchangeable second
  /-- A draw is a function of the words ahead. -/
  drawn (draw : Draw) : (first.draw draw).1 = draw.read (first.state.ahead wordAt)
  /-- It moves the stream by the words that it takes, and keeps the seed. -/
  moved (draw : Draw) : (first.draw draw).2.state = first.state.later draw.words

/-- Saving and restoring is exact, however the two streams have come about. -/
theorem restore_exact (lawful : WordGenerator.Lawful G wordAt runs) (reached : first.Reached)
    (reached' : second.Reached) : first.SavesExactly wordAt second := by
  have sound := reached.sound lawful
  have sound' := reached'.sound lawful
  have inside : first.state.wordPos < 2 ^ 128 :=
    Nat.lt_trans sound.inside (by rw [RandomStream.period]; decide)
  obtain ⟨kept, state⟩ := restore_eq lawful sound' inside
  rw [Nat.mod_eq_of_lt sound.inside] at state
  exact {
    restored := kept.interchangeable lawful sound state
    same := sound.interchangeable lawful sound'
    drawn := fun draw => (draw_eq lawful sound draw).1
    moved := fun draw => (draw_eq lawful sound draw).2.2 }

/-- A stream that stands before the last word of its period, and was put there from another seed, is saved
for a stream of a third seed: two words at once take it past the end. -/
theorem restore_exact_at_last_word :
    let first := (ofSeed 7 : SeededStream RandomStream).restore ⟨5, 2 ^ 68 - 1⟩
    let second := ((ofSeed 9 : SeededStream RandomStream).draw .word).2
    first.Reached ∧ second.Reached ∧ (second.restore first.state).Interchangeable first ∧
      (first.draw .pair).2.state = ⟨5, 1⟩ := by
  intro first second
  have reached : first.Reached := .restore (.ofSeed 7) (by decide)
  have reached' : second.Reached := .draw (.ofSeed 9) .word
  have exact := restore_exact RandomStream.lawful reached reached'
  exact ⟨reached, reached', exact.restored, (exact.moved .pair).trans (by decide)⟩

/-! ## Streams of scopes

The streams that scopes draw from keep nothing but the seed and the position. They are the streams on
themselves as generators: a generator that goes with its seed need not be kept apart from it. -/

/-- A stream of the words themselves, as a stream on a generator. -/
def ofStream (stream : RandomStream) : SeededStream RandomStream := ⟨stream, stream.seed⟩

theorem state_ofStream (stream : RandomStream) : (ofStream stream).state = stream.state := rfl

theorem ofScope_eq (base : UInt64) (scope : ScopeId) :
    ofScope base scope = ofStream (.ofScope base scope) := rfl

theorem nextInRange_ofStream (lo hi : UInt32) (stream : RandomStream) :
    (ofStream stream).nextInRange lo hi = (stream.nextInRange lo hi).map id ofStream := by
  rw [nextInRange, RandomStream.nextInRange]
  split
  next => rfl
  next => rfl

/-- Every draw of a scope's stream is the one of the stream on a generator. -/
theorem draw_ofStream (stream : RandomStream) (draw : Draw) : (ofStream stream).draw draw =
    match draw with
    | .word => stream.nextU32.map .word ofStream
    | .pair => stream.nextU64.map .pair ofStream
    | .inRange lo hi => (stream.nextInRange lo hi).map .word ofStream
    | .fraction => stream.nextFraction.map .number ofStream
    | .chance probability => (stream.chance probability).map .verdict ofStream := by
  cases draw with
  | word => rfl
  | pair => rfl
  | inRange lo hi =>
    rw [SeededStream.draw, nextInRange_ofStream]
    rfl
  | fraction => rfl
  | chance probability => rfl

/-- A scope's stream that is put back forgets where it stood, and so does the stream on a generator, with
or without a new one. -/
theorem restore_ofStream (stream : RandomStream) (state : StreamState) :
    (ofStream stream).restore state = ofStream (stream.restore state) := by
  by_cases same : state.seed = stream.seed
  · rw [restore_of_eq same]
    obtain ⟨seed, position⟩ := state
    obtain rfl : seed = stream.seed := same
    rfl
  · rw [restore_of_ne same]
    rfl

end SeededStream

end Lockstep
