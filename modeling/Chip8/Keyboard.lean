import Chip8.Nibble

/-
  This file defines how the left-hand block of a keyboard is
  laid over the pad:

      1 2 3 4        1 2 3 C
      Q W E R   on   4 5 6 D
      A S D F        7 8 9 E
      Z X C V        A 0 B F

  Key definitions include:
    * `HostKey`
    * `HostKey.padKey?`
    * `HostKey.events`
-/

------------------------------------------------------------
-- Keyboard Layout
------------------------------------------------------------

namespace Chip8

/- A key of the keyboard. -/
inductive HostKey where
  /- A key of the row of digits. -/
  | digit (d : Fin 10)
  /- A letter key, by its capital letter. -/
  | letter (c : Char)
  /- Any other key. -/
  | other
deriving DecidableEq

namespace HostKey

/- The pad key under a key of the keyboard. -/
def padKey? : HostKey → Option Nibble
| .digit 1 => some 0x1
| .digit 2 => some 0x2
| .digit 3 => some 0x3
| .digit 4 => some 0xC
| .letter 'Q' => some 0x4
| .letter 'W' => some 0x5
| .letter 'E' => some 0x6
| .letter 'R' => some 0xD
| .letter 'A' => some 0x7
| .letter 'S' => some 0x8
| .letter 'D' => some 0x9
| .letter 'F' => some 0xE
| .letter 'Z' => some 0xA
| .letter 'X' => some 0x0
| .letter 'C' => some 0xB
| .letter 'V' => some 0xF
| _ => none

/- The key that types a character, in either case. -/
def ofChar (c : Char) : HostKey :=
  if c.isDigit then
    .digit (Fin.ofNat 10 (c.toNat - '0'.toNat))
  else if c.isAlpha then
    .letter c.toUpper
  else
    .other

/-
  The pad events between two moments, each given by the keys
  that are held: first the keys that went down, then those
  that went up.
-/
def events
    (earlier : List HostKey)
    (later : List HostKey) : List (Nibble × Bool) :=
  let pressed := later.filter fun key => key ∉ earlier
  let released := earlier.filter fun key => key ∉ later
  (pressed.filterMap padKey?).map (·, true) ++
    (released.filterMap padKey?).map (·, false)

end HostKey

end Chip8
