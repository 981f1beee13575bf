import Chip8.Nibble

/-
  This file defines the operand fields of a 16-bit instruction
  word, and the selection of a run of nibbles out of it.

  Key definitions include:
    * `Word`, `Register`, `Target`
    * `Word.family`, `Word.x`, `Word.y`, `Word.n`
    * `Word.constant`, `Word.target`
    * `Word.select`
-/

------------------------------------------------------------
-- Field Types
------------------------------------------------------------

namespace Chip8

/- A 16-bit instruction word. -/
abbrev Word :=
  UInt16

/- One of the sixteen data registers V0 to VF. -/
abbrev Register :=
  Nibble

/- The twelve-bit address an instruction can name. -/
abbrev Target :=
  Fin 4096

/- A target as a value of the 16-bit address registers. -/
def Target.toAddress (t : Target) : UInt16 :=
  UInt16.ofNat t.val

------------------------------------------------------------
-- Fields of a Word
------------------------------------------------------------

namespace Word

/- The leading nibble selects the instruction family. -/
def family (w : Word) : Nibble :=
  Nibble.ofNat (w.toNat / 4096)

/- The second nibble names a register. -/
def x (w : Word) : Register :=
  Nibble.ofNat (w.toNat / 256)

/- The third nibble names a register. -/
def y (w : Word) : Register :=
  Nibble.ofNat (w.toNat / 16)

/- The last nibble. -/
def n (w : Word) : Nibble :=
  Nibble.ofNat w.toNat

/- The low byte. -/
def constant (w : Word) : UInt8 :=
  UInt8.ofNat w.toNat

/- The low twelve bits. -/
def target (w : Word) : Target :=
  ⟨w.toNat % 4096, Nat.mod_lt _ (by decide)⟩

------------------------------------------------------------
-- Runs of Nibbles
------------------------------------------------------------

/- Why a run of nibbles cannot be taken out of a word. -/
inductive SelectFault where
  /- The run starts before the word or ends after it. -/
  | outside
  /- The run is empty and starts before every bit. -/
  | shiftedOut
deriving DecidableEq

/- The report of a failed selection. -/
def SelectFault.message : SelectFault → String
| .outside => "attempt to subtract with overflow"
| .shiftedOut => "attempt to shift right with overflow"

/- The value of a digit one in front of `count` nibbles. -/
def weight : Nat → Nat
| 0 => 1
| count + 1 => 16 * weight count

/-
  The `count` nibbles that begin with the one at `start`,
  counted from one at the left.  An empty run is zero; it may
  also stand right behind the word, but not in front of it.
-/
def select
    (w : Word)
    (start : Nat)
    (count : Nat) : Except SelectFault UInt16 :=
  if start = 0 ∨ 4 < count + (start - 1) then
    .error .outside
  else
    let behind := 4 - count - (start - 1)
    if behind = 4 then
      .error .shiftedOut
    else
      .ok
        (UInt16.ofNat
          (w.toNat / weight behind % weight count))

end Word

end Chip8
