/-! # The words behind a random stream

A seed and a word position determine a pseudo-random word: a 64-bit seed is stretched to a key of eight
words, and the stream cipher with eight rounds turns the key and a block number into sixteen words.
Since every word is computed from its position alone, a stream needs no state but where it stands.
-/

namespace Lockstep.Random

def rotateLeft32 (x : UInt32) (n : Nat) : UInt32 :=
  (x <<< UInt32.ofNat n) ||| (x >>> UInt32.ofNat ((32 - n) % 32))

def rotateRight32 (x : UInt32) (n : Nat) : UInt32 := rotateLeft32 x ((32 - n % 32) % 32)

/-- One step of the generator that stretches a seed. -/
def stretchStep (state : UInt64) : UInt64 := state * 6364136223846793005 + 11634580027462260723

/-- The word that a state of that generator gives: a shifted mix, rotated by the top bits. -/
def stretchWord (state : UInt64) : UInt32 :=
  rotateRight32 (((state >>> 18) ^^^ state) >>> 27).toUInt32 (state >>> 59).toNat

def stretch : Nat → UInt64 → List UInt32
  | 0, _ => []
  | count + 1, state => stretchWord (stretchStep state) :: stretch count (stretchStep state)

/-- The key of a seed: eight words. -/
def keyOfSeed (seed : UInt64) : List UInt32 := stretch 8 seed

/-- Sixteen words. -/
abbrev Block := List UInt32

/-- The word at a place of a block. -/
def word (block : Block) (place : Nat) : UInt32 := block.getD place 0

/-- Mix four words of a block. -/
def quarterRound (a b c d : Nat) (block : Block) : Block :=
  let a₁ := word block a + word block b
  let d₁ := rotateLeft32 (word block d ^^^ a₁) 16
  let c₁ := word block c + d₁
  let b₁ := rotateLeft32 (word block b ^^^ c₁) 12
  let a₂ := a₁ + b₁
  let d₂ := rotateLeft32 (d₁ ^^^ a₂) 8
  let c₂ := c₁ + d₂
  let b₂ := rotateLeft32 (b₁ ^^^ c₂) 7
  (((block.set a a₂).set b b₂).set c c₂).set d d₂

/-- Two rounds: one on the columns, one on the diagonals. -/
def doubleRound (block : Block) : Block :=
  let columns := quarterRound 3 7 11 15 (quarterRound 2 6 10 14 (quarterRound 1 5 9 13 (quarterRound 0 4 8 12 block)))
  quarterRound 3 4 9 14 (quarterRound 2 7 8 13 (quarterRound 1 6 11 12 (quarterRound 0 5 10 15 columns)))

/-- The block before the rounds: four constants, the key, the block number and two zero words. -/
def initialBlock (key : List UInt32) (number : UInt64) : Block :=
  0x61707865 :: 0x3320646e :: 0x79622d32 :: 0x6b206574 ::
    (key ++ [number.toUInt32, (number >>> 32).toUInt32, 0, 0])

/-- The sixteen output words of a block number. -/
def block (key : List UInt32) (number : UInt64) : Block :=
  let initial := initialBlock key number
  List.zipWith (· + ·) initial (doubleRound (doubleRound (doubleRound (doubleRound initial))))

/-- The word at a position of the stream of a seed. -/
def wordAt (seed : UInt64) (position : Nat) : UInt32 :=
  word (block (keyOfSeed seed) (UInt64.ofNat (position / 16))) (position % 16)

end Lockstep.Random
