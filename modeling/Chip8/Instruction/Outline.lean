import Chip8.Instruction
import Chip8.Numeral

/-
  This file defines the outline of an instruction: the name of
  what it does and its operands as decimal numbers, with every
  operand of the word kept.

  Key definitions include:
    * `Instruction.name`
    * `Instruction.operands`
    * `Instruction.outline`
-/

------------------------------------------------------------
-- Names
------------------------------------------------------------

namespace Chip8

/- The name of a register operation. -/
def Operation.name : Operation → String
| .copy => "CopyRegister"
| .bitOr => "Or"
| .bitAnd => "And"
| .bitXor => "XOr"
| .add => "Add"
| .sub => "SubtractForward"
| .shiftRight => "RightShift"
| .subFrom => "SubtractBackward"
| .shiftLeft => "LeftShift"

/- The name of a conditional skip. -/
def Condition.name : Condition → String
| .equalsByte .. => "SkipEqualConstant"
| .differsByte .. => "SkipNotEqualConstant"
| .equalsRegister .. => "SkipEqualRegister"
| .differsRegister .. => "SkipNotEqualRegister"
| .keyHeld .. => "SkipIfPressed"
| .keyFree .. => "SkipIfNotPressed"

/- The operands of a conditional skip. -/
def Condition.operands : Condition → List Nat
| .equalsByte x byte => [x.val, byte.toNat]
| .differsByte x byte => [x.val, byte.toNat]
| .equalsRegister x y => [x.val, y.val]
| .differsRegister x y => [x.val, y.val]
| .keyHeld x => [x.val]
| .keyFree x => [x.val]

namespace Instruction

/- The name of what an instruction does. -/
def name : Instruction → String
| .clearScreen => "ClearScreen"
| .ret => "Return"
| .jump _ => "Jump"
| .call _ => "Call"
| .skipIf condition => condition.name
| .setByte .. => "SetRegister"
| .addByte .. => "AddToRegister"
| .combine operation _ _ => operation.name
| .setIndex _ => "SetIndexRegister"
| .jumpOffset _ => "JumpWithOffset"
| .random .. => "Random"
| .draw .. => "Display"
| .getDelay _ => "CopyDelayToRegister"
| .awaitKey _ => "GetKey"
| .setDelay _ => "CopyRegisterToDelay"
| .setSound _ => "CopyRegisterToSound"
| .addIndex _ => "AddToIndex"
| .pointGlyph _ => "PointChar"
| .storeDecimal _ => "ToDecimal"
| .store _ => "StoreRegisterToMemory"
| .load _ => "LoadRegisterFromMemory"
| .unknown _ => "Unknown"

/- The operands of an instruction in the order of its word. -/
def operands : Instruction → List Nat
| .clearScreen => []
| .ret => []
| .jump target => [target.val]
| .call target => [target.val]
| .skipIf condition => condition.operands
| .setByte x byte => [x.val, byte.toNat]
| .addByte x byte => [x.val, byte.toNat]
| .combine _ x y => [x.val, y.val]
| .setIndex target => [target.val]
| .jumpOffset target => [target.val]
| .random x mask => [x.val, mask.toNat]
| .draw x y rows => [x.val, y.val, rows.val]
| .getDelay x => [x.val]
| .awaitKey x => [x.val]
| .setDelay x => [x.val]
| .setSound x => [x.val]
| .addIndex x => [x.val]
| .pointGlyph x => [x.val]
| .storeDecimal x => [x.val]
| .store x => [x.val]
| .load x => [x.val]
| .unknown word => [word.toNat]

------------------------------------------------------------
-- Outline Text
------------------------------------------------------------

/-
  The name alone, or the name with the operands in parentheses
  and commas between them.
-/
def outline (instruction : Instruction) : String :=
  match instruction.operands with
  | [] => instruction.name
  | operands =>
      instruction.name ++ "(" ++
        String.intercalate ", "
          (operands.map Numeral.decimalText) ++ ")"

end Instruction

end Chip8
