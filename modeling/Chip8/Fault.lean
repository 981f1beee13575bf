import Chip8.Numeral

/-
  This file defines the faults of the machine and their
  reports.

  Key definitions include:
    * `Fault`
    * `Fault.message`
-/

------------------------------------------------------------
-- Faults
------------------------------------------------------------

namespace Chip8

/- What the machine refuses to do. -/
inductive Fault where
  /- A program is larger than the space for programs. -/
  | programTooLarge (size : Nat) (limit : Nat)
  /- A call at this address finds the call stack full. -/
  | stackOverflow (pc : UInt16)
  /- A return at this address finds the call stack empty. -/
  | stackUnderflow (pc : UInt16)
deriving DecidableEq

/- The report of a fault. -/
def Fault.message : Fault → String
| .programTooLarge size limit =>
    "program is " ++ Numeral.decimalText size ++
      " bytes, at most " ++ Numeral.decimalText limit ++
      " bytes fit above the load address"
| .stackOverflow pc =>
    "call stack overflow at " ++ Numeral.addressText pc
| .stackUnderflow pc =>
    "return with empty call stack at " ++
      Numeral.addressText pc

end Chip8
