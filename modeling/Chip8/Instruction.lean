import Chip8.Word

/-
  This file defines the instructions of the machine and how a
  word is decoded into one.

  Key definitions include:
    * `Operation`, `Condition`
    * `Instruction`
    * `Instruction.decode`
-/

------------------------------------------------------------
-- Instructions
------------------------------------------------------------

namespace Chip8

/- What family 8 computes from two registers. -/
inductive Operation where
  | copy
  | bitOr
  | bitAnd
  | bitXor
  | add
  | sub
  | shiftRight
  | subFrom
  | shiftLeft
deriving DecidableEq

/- What a conditional skip tests. -/
inductive Condition where
  | equalsByte (x : Register) (byte : UInt8)
  | differsByte (x : Register) (byte : UInt8)
  | equalsRegister (x y : Register)
  | differsRegister (x y : Register)
  | keyHeld (x : Register)
  | keyFree (x : Register)
deriving DecidableEq

/- One instruction with its operands. -/
inductive Instruction where
  /- Blank the screen. -/
  | clearScreen
  /- Go back to the newest return address. -/
  | ret
  /- Go to an address. -/
  | jump (target : Target)
  /- Go to an address and remember where to return. -/
  | call (target : Target)
  /- Pass over the next instruction if a condition holds. -/
  | skipIf (condition : Condition)
  /- Put a constant into a register. -/
  | setByte (x : Register) (byte : UInt8)
  /- Add a constant to a register, without a flag. -/
  | addByte (x : Register) (byte : UInt8)
  /- Combine two registers. -/
  | combine (operation : Operation) (x y : Register)
  /- Set the index register. -/
  | setIndex (target : Target)
  /- Go to an address plus V0. -/
  | jumpOffset (target : Target)
  /- Put a masked random byte into a register. -/
  | random (x : Register) (mask : UInt8)
  /- Draw a sprite of so many rows at (VX, VY). -/
  | draw (x y : Register) (rows : Nibble)
  /- Read the delay timer. -/
  | getDelay (x : Register)
  /- Wait for a key and put its number into a register. -/
  | awaitKey (x : Register)
  /- Set the delay timer. -/
  | setDelay (x : Register)
  /- Set the sound timer. -/
  | setSound (x : Register)
  /- Add a register to the index register. -/
  | addIndex (x : Register)
  /- Point the index register at a font glyph. -/
  | pointGlyph (x : Register)
  /- Store the three decimal digits of a register. -/
  | storeDecimal (x : Register)
  /- Store V0 to VX. -/
  | store (x : Register)
  /- Load V0 to VX. -/
  | load (x : Register)
  /- Any other word, kept so that it can be reported. -/
  | unknown (word : Word)
deriving DecidableEq

------------------------------------------------------------
-- Decoding
------------------------------------------------------------

/- The operation that the last nibble of family 8 selects. -/
def Operation.ofNibble? : Nibble → Option Operation
| 0x0 => some .copy
| 0x1 => some .bitOr
| 0x2 => some .bitAnd
| 0x3 => some .bitXor
| 0x4 => some .add
| 0x5 => some .sub
| 0x6 => some .shiftRight
| 0x7 => some .subFrom
| 0xE => some .shiftLeft
| _ => none

namespace Instruction

/- Family 0 has two words. -/
def decodeSystem (w : Word) : Instruction :=
  if w = 0x00E0 then
    .clearScreen
  else if w = 0x00EE then
    .ret
  else
    .unknown w

/- Family 8 combines two registers. -/
def decodeCombine (w : Word) : Instruction :=
  match Operation.ofNibble? w.n with
  | some operation => .combine operation w.x w.y
  | none => .unknown w

/- Family E tests the keypad. -/
def decodeKey (w : Word) : Instruction :=
  match w.constant.toNat with
  | 0x9E => .skipIf (.keyHeld w.x)
  | 0xA1 => .skipIf (.keyFree w.x)
  | _ => .unknown w

/- Family F reaches timers, index register, font and memory. -/
def decodeDevice (w : Word) : Instruction :=
  match w.constant.toNat with
  | 0x07 => .getDelay w.x
  | 0x0A => .awaitKey w.x
  | 0x15 => .setDelay w.x
  | 0x18 => .setSound w.x
  | 0x1E => .addIndex w.x
  | 0x29 => .pointGlyph w.x
  | 0x33 => .storeDecimal w.x
  | 0x55 => .store w.x
  | 0x65 => .load w.x
  | _ => .unknown w

/-
  The instruction of a word.  Families 5 and 9 ignore the last
  nibble; a word without a meaning becomes `unknown`.  The last
  arm is family F, the only nibble left.
-/
def decode (w : Word) : Instruction :=
  match w.family with
  | 0x0 => decodeSystem w
  | 0x1 => .jump w.target
  | 0x2 => .call w.target
  | 0x3 => .skipIf (.equalsByte w.x w.constant)
  | 0x4 => .skipIf (.differsByte w.x w.constant)
  | 0x5 => .skipIf (.equalsRegister w.x w.y)
  | 0x6 => .setByte w.x w.constant
  | 0x7 => .addByte w.x w.constant
  | 0x8 => decodeCombine w
  | 0x9 => .skipIf (.differsRegister w.x w.y)
  | 0xA => .setIndex w.target
  | 0xB => .jumpOffset w.target
  | 0xC => .random w.x w.constant
  | 0xD => .draw w.x w.y w.n
  | 0xE => decodeKey w
  | _ => decodeDevice w

end Instruction

end Chip8
