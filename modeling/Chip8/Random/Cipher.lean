import Chip8.Cells

/-
  This file defines the block function of the stream cipher
  that random words are taken from: four rows of four words are
  mixed in six double rounds and added to the words they came
  from.

  Key definitions include:
    * `Cipher.State`
    * `Cipher.mix`, `Cipher.doubleRound`
    * `Cipher.block`
-/

------------------------------------------------------------
-- Rows
------------------------------------------------------------

namespace Chip8

namespace Cipher

/- Four 32-bit words. -/
abbrev Row :=
  Vector UInt32 4

/- The four rows of a block. -/
structure State where
  a : Row
  b : Row
  c : Row
  d : Row

/- Rotate a word to the left. -/
def rotateWord
    (places : UInt32)
    (word : UInt32) : UInt32 :=
  (word <<< places) ||| (word >>> (32 - places))

/- Rotate the words of a row to the left. -/
def rotateRow
    (places : Fin 4)
    (row : Row) : Row :=
  Vector.ofFn fun i => row.get (i + places)

/- The sums of the words in two rows. -/
def addRows
    (r : Row)
    (s : Row) : Row :=
  Vector.zipWith (· + ·) r s

/- Mix one row into another and rotate each word. -/
def mixRows
    (places : UInt32)
    (r : Row)
    (s : Row) : Row :=
  (Vector.zipWith (· ^^^ ·) r s).map (rotateWord places)

------------------------------------------------------------
-- Rounds
------------------------------------------------------------

/-
  One half of a mixing: add the second row to the first and
  mix the sum into the fourth, then the same with third,
  fourth and second row.
-/
def halfMix
    (first : UInt32)
    (second : UInt32)
    (state : State) : State :=
  let a := addRows state.a state.b
  let d := mixRows first state.d a
  let c := addRows state.c d
  { a := a
    b := mixRows second state.b c
    c := c
    d := d }

/- Mix the words of each column with each other. -/
def mix (state : State) : State :=
  halfMix 8 7 (halfMix 16 12 state)

/- Rotate the rows so that diagonals stand in columns. -/
def toDiagonals (state : State) : State :=
  { a := state.a
    b := rotateRow 1 state.b
    c := rotateRow 2 state.c
    d := rotateRow 3 state.d }

/- Rotate the rows back. -/
def toColumns (state : State) : State :=
  { a := state.a
    b := rotateRow 3 state.b
    c := rotateRow 2 state.c
    d := rotateRow 1 state.d }

/- Mix the four columns, then the four diagonals. -/
def doubleRound (state : State) : State :=
  toColumns (mix (toDiagonals (mix state)))

/- Several double rounds. -/
def doubleRounds
    (state : State) : Nat → State
| 0 => state
| count + 1 => doubleRounds (doubleRound state) count

------------------------------------------------------------
-- Blocks
------------------------------------------------------------

/- A key of eight words, in two rows. -/
structure Key where
  low : Row
  high : Row
deriving DecidableEq

/-
  The rows before mixing: four constants, the key, and the
  block number with its low word first and two zeros.
-/
def start
    (key : Key)
    (number : Nat) : State :=
  { a := #v[0x61707865, 0x3320646E, 0x79622D32, 0x6B206574]
    b := key.low
    c := key.high
    d :=
      #v[UInt32.ofNat number,
        UInt32.ofNat (number / 4294967296), 0, 0] }

/- The sixteen output words of a block. -/
def block
    (key : Key)
    (number : Nat) : Cells UInt32 16 :=
  let first := start key number
  let last := doubleRounds first 6
  addRows last.a first.a ++ addRows last.b first.b ++
    addRows last.c first.c ++ addRows last.d first.d

end Cipher

end Chip8
