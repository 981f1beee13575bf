import Chip8.Nibble
import Chip8.Random.Cipher

/-
  This file defines the source of random bytes: a stream and
  how far it was read.  Any stream will do for the machine; a
  seed fixes the one that a program runs with.

  Key definitions include:
    * `RandomSource`
    * `RandomSource.ofStream`, `RandomSource.draw`
    * `RandomSource.byteAt`
    * `RandomSource.ofSeed`
-/

------------------------------------------------------------
-- Seeds
------------------------------------------------------------

namespace Chip8

namespace Seed

/- The next state of the sequence that fills a key. -/
def next (state : UInt64) : UInt64 :=
  state * 6364136223846793005 + 11634580027462260723

/-
  The word that a state gives: high bits are mixed into low
  ones and rotated by the five highest bits.
-/
def output (state : UInt64) : UInt32 :=
  let word := (((state >>> 18) ^^^ state) >>> 27).toUInt32
  let places := (state >>> 59).toUInt32
  (word >>> places) ||| (word <<< ((32 - places) % 32))

/- The state after several steps. -/
def nextMany
    (state : UInt64) : Nat → UInt64
| 0 => state
| count + 1 => nextMany (next state) count

/- The key that a seed is stretched to. -/
def key (seed : UInt64) : Cipher.Key :=
  { low := Vector.ofFn fun i =>
      output (nextMany seed (i.val + 1))
    high := Vector.ofFn fun i =>
      output (nextMany seed (i.val + 5)) }

end Seed

------------------------------------------------------------
-- Random Bytes
------------------------------------------------------------

/- A stream of bytes and the count of those already drawn. -/
structure RandomSource where
  stream : Nat → UInt8
  position : Nat

namespace RandomSource

/- The source that begins a stream. -/
def ofStream (stream : Nat → UInt8) : RandomSource :=
  ⟨stream, 0⟩

/- The next byte of the stream. -/
def draw (source : RandomSource) : UInt8 × RandomSource :=
  (source.stream source.position,
    { source with position := source.position + 1 })

------------------------------------------------------------
-- Seeded Sources
------------------------------------------------------------

/-
  A byte of the stream of a key is the low byte of one output
  word.
-/
def byteAt
    (key : Cipher.Key)
    (k : Nat) : UInt8 :=
  ((Cipher.block key (k / 16)).read (Nibble.ofNat k)).toUInt8

/- The source that begins the stream of a seed. -/
def ofSeed (seed : UInt64) : RandomSource :=
  .ofStream (byteAt (Seed.key seed))

end RandomSource

end Chip8
