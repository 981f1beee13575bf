import Chip8.Cells
import Chip8.Notice

/-
  This file defines the keypad: which of the sixteen keys are
  held, as key events have told.

  Key definitions include:
    * `Keypad`
    * `Keypad.set`, `Keypad.reset`
    * `Keypad.isHeld`, `Keypad.firstHeld`
-/

------------------------------------------------------------
-- Keypad
------------------------------------------------------------

namespace Chip8

/- Whether each key is held. -/
structure Keypad where
  keys : Cells Bool 16
deriving DecidableEq

namespace Keypad

/- No key held. -/
def released : Keypad :=
  ⟨.fill 16 false⟩

/-
  Take in a key event.  An event for a key that the pad does
  not have changes nothing and gives a notice.
-/
def set
    (pad : Keypad)
    (index : Nat)
    (down : Bool) : Keypad × List Notice :=
  if h : index < 16 then
    (⟨pad.keys.write ⟨index, h⟩ down⟩, [])
  else
    (pad, [.noSuchKey index])

/- Release all keys. -/
def reset (pad : Keypad) : Keypad :=
  { pad with keys := .fill 16 false }

@[simp] theorem reset_eq_released (pad : Keypad) :
    pad.reset = released :=
  rfl

/- Whether the key that a byte names is held. -/
def isHeld
    (pad : Keypad)
    (key : UInt8) : Bool :=
  pad.keys.read (Nibble.ofByte key)

/- The held keys in ascending order. -/
def held (pad : Keypad) : List Nibble :=
  (List.finRange 16).filter fun key => pad.keys.read key

/- The lowest held key. -/
def firstHeld (pad : Keypad) : Option Nibble :=
  (List.finRange 16).find? fun key => pad.keys.read key

@[simp] theorem isHeld_released (key : UInt8) :
    released.isHeld key = false :=
  Cells.read_fill false (Nibble.ofByte key)

/-
  After an event the key that it names is as the event tells,
  every other key as before.
-/
theorem isHeld_set
    (pad : Keypad)
    (index : Nat)
    (down : Bool)
    (key : UInt8) :
    (pad.set index down).1.isHeld key =
      if index = key.toNat % 16 then down
      else pad.isHeld key := by
  unfold set
  split
  · simp [isHeld, Cells.read_write, Nibble.ofByte,
      Nibble.ofNat, Fin.ext_iff]
  · rename_i h
    have : index ≠ key.toNat % 16 := by
      omega
    simp [this]

@[simp] theorem isHeld_toByte
    (pad : Keypad)
    (key : Nibble) :
    pad.isHeld key.toByte = pad.keys.read key := by
  rw [isHeld, Nibble.ofByte_toByte]

theorem isHeld_of_firstHeld
    {pad : Keypad}
    (hNone : pad.firstHeld = none)
    (key : UInt8) :
    pad.isHeld key = false := by
  have hFree :=
    List.find?_eq_none.mp hNone (Nibble.ofByte key)
      (List.mem_finRange _)
  exact Bool.eq_false_iff.mpr hFree

end Keypad

end Chip8
