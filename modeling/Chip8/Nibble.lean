/-
  This file defines nibbles, the digits of addresses, registers
  and keys.

  Key definitions include:
    * `Nibble`
    * `Nibble.ofByte`
-/

------------------------------------------------------------
-- Nibbles
------------------------------------------------------------

namespace Chip8

/- A value below sixteen. -/
abbrev Nibble :=
  Fin 16

namespace Nibble

/- A number modulo sixteen. -/
def ofNat (n : Nat) : Nibble :=
  ⟨n % 16, Nat.mod_lt _ (by decide)⟩

/- The lowest nibble. -/
def least : Nibble :=
  ofNat 0x0

/- The highest nibble. -/
def greatest : Nibble :=
  ofNat 0xF

/- The low nibble of a byte. -/
def ofByte (b : UInt8) : Nibble :=
  ofNat b.toNat

/- A nibble as a byte. -/
def toByte (d : Nibble) : UInt8 :=
  UInt8.ofNat d.val

@[simp] theorem ofByte_toByte (d : Nibble) :
    ofByte d.toByte = d := by
  have := d.isLt
  apply Fin.ext
  simp only [ofByte, ofNat, toByte, UInt8.toNat_ofNat']
  omega

end Nibble

end Chip8
