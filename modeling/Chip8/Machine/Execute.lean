import Chip8.Machine.Arithmetic
import Chip8.Machine.State

/-
  This file defines what each instruction does to the machine,
  and where the program goes on afterwards.

  Key definitions include:
    * `Flow`
    * `Outcome`
    * `Machine.holds`
    * `Machine.execute`
-/

------------------------------------------------------------
-- Outcomes
------------------------------------------------------------

namespace Chip8

/- Where the program goes on after an instruction. -/
inductive Flow where
  /- At the next instruction. -/
  | next
  /- After the next instruction. -/
  | skip
  /- At an address. -/
  | goto (a : UInt16)
  /- Nowhere until a key is held. -/
  | wait
deriving DecidableEq

namespace Flow

/- Skip if a condition holds. -/
def skipIf (condition : Bool) : Flow :=
  if condition then .skip else .next

end Flow

/-
  What an action on the machine leads to: the machine after
  it, its own result, and the notices it gave, oldest first.
-/
structure Outcome (α : Type) where
  machine : Machine
  result : α
  notices : List Notice

namespace Outcome

variable {α : Type}

/- An outcome without a notice. -/
def quiet
    (m : Machine)
    (result : α) : Outcome α :=
  ⟨m, result, []⟩

/- Go on at the next instruction, without a notice. -/
def next (m : Machine) : Outcome Flow :=
  quiet m .next

@[simp] theorem next_eq_quiet (m : Machine) :
    next m = quiet m .next :=
  rfl

@[simp] theorem machine_quiet
    (m : Machine)
    (result : α) :
    (quiet m result).machine = m :=
  rfl

@[simp] theorem result_quiet
    (m : Machine)
    (result : α) :
    (quiet m result).result = result :=
  rfl

end Outcome

------------------------------------------------------------
-- Parts of Instructions
------------------------------------------------------------

namespace Machine

/- Whether a condition holds. -/
def holds (m : Machine) : Condition → Bool
| .equalsByte x byte => m.registers.get x = byte
| .differsByte x byte => m.registers.get x ≠ byte
| .equalsRegister x y =>
    m.registers.get x = m.registers.get y
| .differsRegister x y =>
    m.registers.get x ≠ m.registers.get y
| .keyHeld x => m.keypad.isHeld (m.registers.get x)
| .keyFree x => !m.keypad.isHeld (m.registers.get x)

/- Put a masked random byte into a register. -/
def drawRandom
    (m : Machine)
    (x : Register)
    (mask : UInt8) : Machine :=
  let drawn := m.random.draw
  { m with random := drawn.2 }.setRegister x
    (drawn.1 &&& mask)

/-
  Draw the sprite that the index register points at, and set
  VF if a lit pixel was switched off.
-/
def drawSprite
    (m : Machine)
    (x : Register)
    (y : Register)
    (rows : Nibble) : Machine :=
  let sprite := m.memory.read m.index rows.val
  let drawn :=
    m.screen.draw (m.registers.get x) (m.registers.get y)
      sprite
  { m with
    screen := drawn.1
    registers := m.registers.setFlag drawn.2 }

/- The hundreds, tens and ones of a byte. -/
def decimalDigits (value : UInt8) : List UInt8 :=
  [UInt8.ofNat (value.toNat / 100),
   UInt8.ofNat (value.toNat / 10 % 10),
   UInt8.ofNat (value.toNat % 10)]

/- Load V0 to VX from the place that the index points at. -/
def loadRegisters
    (m : Machine)
    (x : Register) : Machine :=
  { m with
    registers :=
      m.registers.setLeading
        (m.memory.read m.index (x.val + 1)) }

/- Return, or go on if the call stack is empty. -/
def executeReturn (m : Machine) : Outcome Flow :=
  match m.stack.pop m.pc with
  | .ok (a, stack) =>
      .quiet { m with stack := stack } (.goto a)
  | .error fault => ⟨m, .next, [.returnSkipped fault]⟩

/- Call, or go on if the call stack is full. -/
def executeCall
    (m : Machine)
    (target : Target) : Outcome Flow :=
  match m.stack.push m.following m.pc with
  | .ok stack =>
      .quiet { m with stack := stack }
        (.goto target.toAddress)
  | .error fault =>
      ⟨m, .next, [.callSkipped fault target]⟩

/- Take the lowest held key, or begin to wait for one. -/
def executeAwaitKey
    (m : Machine)
    (x : Register) : Outcome Flow :=
  match m.keypad.firstHeld with
  | some key =>
      .next (m.setRegister x key.toByte)
  | none => .quiet { m with mode := .awaitingKey x } .wait

------------------------------------------------------------
-- Instructions
------------------------------------------------------------

/-
  What an instruction does.  The program counter still points
  at the instruction; it moves afterwards as the flow tells.
-/
def execute (m : Machine) : Instruction → Outcome Flow
| .clearScreen => .next { m with screen := m.screen.clear }
| .ret => m.executeReturn
| .jump target => .quiet m (.goto target.toAddress)
| .call target => m.executeCall target
| .skipIf condition =>
    .quiet m (.skipIf (m.holds condition))
| .setByte x byte => .next (m.setRegister x byte)
| .addByte x byte =>
    .next { m with registers := m.registers.add x byte }
| .combine operation x y =>
    .next
      { m with
        registers := m.registers.combine operation x y }
| .setIndex target => .next (m.setIndex target.toAddress)
| .jumpOffset target =>
    .quiet m
      (.goto
        (target.toAddress +
          UInt16.ofNat (m.registers.get Nibble.least).toNat))
| .random x mask => .next (m.drawRandom x mask)
| .draw x y rows => .next (m.drawSprite x y rows)
| .getDelay x => .next (m.setRegister x m.clock.delay)
| .awaitKey x => m.executeAwaitKey x
| .setDelay x => .next (m.setDelay (m.registers.get x))
| .setSound x => .next (m.setSound (m.registers.get x))
| .addIndex x => .next (m.addIndex (m.registers.get x))
| .pointGlyph x =>
    .next (m.setIndex (Font.address (m.registers.get x)))
| .storeDecimal x =>
    .next
      (m.write m.index (decimalDigits (m.registers.get x)))
| .store x =>
    .next (m.write m.index (m.registers.leading x))
| .load x => .next (m.loadRegisters x)
| .unknown word => ⟨m, .next, [.unsupported word m.pc]⟩

end Machine

end Chip8
