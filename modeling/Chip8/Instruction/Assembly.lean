import Chip8.Instruction
import Chip8.Numeral

/-
  This file defines the assembly listing of an instruction: a
  mnemonic and the operands that are written behind it.

  Key definitions include:
    * `Mnemonic`, `Operand`
    * `Assembly`, `Assembly.text`
    * `Instruction.assembly`
    * `Instruction.listing`
-/

------------------------------------------------------------
-- Mnemonics and Operands
------------------------------------------------------------

namespace Chip8

/- The leading word of a listing. -/
inductive Mnemonic where
  | cls
  | ret
  | jp
  | call
  | se
  | sne
  | ld
  | add
  | or
  | and
  | xor
  | sub
  | subn
  | shr
  | shl
  | rnd
  | drw
  | skp
  | sknp
  | undefined
deriving DecidableEq

/- The letters of a mnemonic. -/
def Mnemonic.text : Mnemonic → List Char
| .cls => ['C', 'L', 'S']
| .ret => ['R', 'E', 'T']
| .jp => ['J', 'P']
| .call => ['C', 'A', 'L', 'L']
| .se => ['S', 'E']
| .sne => ['S', 'N', 'E']
| .ld => ['L', 'D']
| .add => ['A', 'D', 'D']
| .or => ['O', 'R']
| .and => ['A', 'N', 'D']
| .xor => ['X', 'O', 'R']
| .sub => ['S', 'U', 'B']
| .subn => ['S', 'U', 'B', 'N']
| .shr => ['S', 'H', 'R']
| .shl => ['S', 'H', 'L']
| .rnd => ['R', 'N', 'D']
| .drw => ['D', 'R', 'W']
| .skp => ['S', 'K', 'P']
| .sknp => ['S', 'K', 'N', 'P']
| .undefined => ['?', '?', '?']

/- What an instruction can name behind its mnemonic. -/
inductive Operand where
  /- A data register. -/
  | register (r : Register)
  /- An eight-bit constant. -/
  | byte (b : UInt8)
  /- A twelve-bit address. -/
  | target (t : Target)
  /- A count of sprite rows. -/
  | rows (n : Nibble)
  /- A whole word without a meaning. -/
  | word (w : Word)
  /- The index register. -/
  | index
  /- The memory that the index register points at. -/
  | indexed
  /- The delay timer. -/
  | delayTimer
  /- The sound timer. -/
  | soundTimer
  /- The next key. -/
  | key
  /- A font glyph. -/
  | glyph
  /- Decimal digits. -/
  | decimal
deriving DecidableEq

/- The text of an operand. -/
def Operand.text : Operand → List Char
| .register r => ['V', Numeral.upperDigit r]
| .byte b => Numeral.byte b
| .target t => Numeral.address t.toAddress
| .rows n => Numeral.decimal n.val
| .word w => Numeral.word w
| .index => ['I']
| .indexed => ['[', 'I', ']']
| .delayTimer => ['D', 'T']
| .soundTimer => ['S', 'T']
| .key => ['K']
| .glyph => ['F']
| .decimal => ['B']

------------------------------------------------------------
-- Assembly Lines
------------------------------------------------------------

/- A mnemonic and its operands. -/
structure Assembly where
  mnemonic : Mnemonic
  operands : List Operand
deriving DecidableEq

/-
  A blank stands behind the mnemonic if operands follow, and
  a comma with a blank between two of them.
-/
def Assembly.text (line : Assembly) : List Char :=
  match line.operands with
  | [] => line.mnemonic.text
  | operands =>
      line.mnemonic.text ++ ' ' ::
        List.intercalate [',', ' '] (operands.map Operand.text)

/- The mnemonic of a register operation. -/
def Operation.mnemonic : Operation → Mnemonic
| .copy => .ld
| .bitOr => .or
| .bitAnd => .and
| .bitXor => .xor
| .add => .add
| .sub => .sub
| .shiftRight => .shr
| .subFrom => .subn
| .shiftLeft => .shl

/- A shift is listed without the register it ignores. -/
def Operation.operands
    (operation : Operation)
    (x : Register)
    (y : Register) : List Operand :=
  match operation with
  | .shiftRight | .shiftLeft => [.register x]
  | _ => [.register x, .register y]

/- The assembly line of a conditional skip. -/
def Condition.assembly : Condition → Assembly
| .equalsByte x byte => ⟨.se, [.register x, .byte byte]⟩
| .differsByte x byte => ⟨.sne, [.register x, .byte byte]⟩
| .equalsRegister x y => ⟨.se, [.register x, .register y]⟩
| .differsRegister x y => ⟨.sne, [.register x, .register y]⟩
| .keyHeld x => ⟨.skp, [.register x]⟩
| .keyFree x => ⟨.sknp, [.register x]⟩

namespace Instruction

/- The assembly line of an instruction. -/
def assembly : Instruction → Assembly
| .clearScreen => ⟨.cls, []⟩
| .ret => ⟨.ret, []⟩
| .jump target => ⟨.jp, [.target target]⟩
| .call target => ⟨.call, [.target target]⟩
| .skipIf condition => condition.assembly
| .setByte x byte => ⟨.ld, [.register x, .byte byte]⟩
| .addByte x byte => ⟨.add, [.register x, .byte byte]⟩
| .combine operation x y =>
    ⟨operation.mnemonic, operation.operands x y⟩
| .setIndex target => ⟨.ld, [.index, .target target]⟩
| .jumpOffset target =>
    ⟨.jp, [.register Nibble.least, .target target]⟩
| .random x mask => ⟨.rnd, [.register x, .byte mask]⟩
| .draw x y rows =>
    ⟨.drw, [.register x, .register y, .rows rows]⟩
| .getDelay x => ⟨.ld, [.register x, .delayTimer]⟩
| .awaitKey x => ⟨.ld, [.register x, .key]⟩
| .setDelay x => ⟨.ld, [.delayTimer, .register x]⟩
| .setSound x => ⟨.ld, [.soundTimer, .register x]⟩
| .addIndex x => ⟨.add, [.index, .register x]⟩
| .pointGlyph x => ⟨.ld, [.glyph, .register x]⟩
| .storeDecimal x => ⟨.ld, [.decimal, .register x]⟩
| .store x => ⟨.ld, [.indexed, .register x]⟩
| .load x => ⟨.ld, [.register x, .indexed]⟩
| .unknown w => ⟨.undefined, [.word w]⟩

/- The listing of an instruction as text. -/
def listing (instruction : Instruction) : String :=
  String.ofList instruction.assembly.text

end Instruction

end Chip8
