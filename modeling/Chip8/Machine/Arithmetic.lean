import Chip8.Instruction
import Chip8.Registers

/-
  This file defines what the operations of family 8 compute,
  and the order in which flag and result are written.

  Key definitions include:
    * `Operation.result`
    * `Operation.flag?`
    * `Registers.combine`
-/

------------------------------------------------------------
-- Results and Flags
------------------------------------------------------------

namespace Chip8

namespace Operation

/- The result from the values of VX and VY. -/
def result
    (operation : Operation)
    (a : UInt8)
    (b : UInt8) : UInt8 :=
  match operation with
  | .copy => b
  | .bitOr => a ||| b
  | .bitAnd => a &&& b
  | .bitXor => a ^^^ b
  | .add => a + b
  | .sub => a - b
  | .shiftRight => UInt8.ofNat (a.toNat / 2)
  | .subFrom => b - a
  | .shiftLeft => a + a

/-
  The flag from the values of VX and VY: a carry, the lack of
  a borrow between different values, or the bit shifted out.
-/
def flag?
    (operation : Operation)
    (a : UInt8)
    (b : UInt8) : Option Bool :=
  match operation with
  | .add => some (255 < a.toNat + b.toNat)
  | .sub => some (b.toNat < a.toNat)
  | .shiftRight => some (a.toNat % 2 = 1)
  | .subFrom => some (a.toNat < b.toNat)
  | .shiftLeft => some (128 ≤ a.toNat)
  | _ => none

end Operation

------------------------------------------------------------
-- Combining Registers
------------------------------------------------------------

namespace Registers

/- Set VF if an operation has a flag. -/
def setFlag?
    (v : Registers) : Option Bool → Registers
| some on => v.setFlag on
| none => v

/-
  Combine two registers.  The flag is written before the
  result, so that the result stays where VX is VF.
-/
def combine
    (v : Registers)
    (operation : Operation)
    (x : Register)
    (y : Register) : Registers :=
  let a := v.get x
  let b := v.get y
  (v.setFlag? (operation.flag? a b)).set x
    (operation.result a b)

end Registers

end Chip8
