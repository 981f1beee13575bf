import Chip8.Proofs.Checked.Decoding
import Chip8.Proofs.Checked.Drawing
import Chip8.Proofs.Checked.Parts
import Chip8.Proofs.Dispatch
import Chip8.Proofs.HostAccess

/-
  This file defines a machine each of whose accesses is checked
  when it is made: registers, memory, stack slots, pixels and
  keys by number, and all arithmetic that is not meant to wrap.
  A trap ends whatever the host does.

  Key definitions include:
    * `Checked.State`
    * `Checked.State.execute`, `Checked.State.cycle`
    * `Checked.State.call`, `Checked.State.act`
    * `Checked.run`
-/

------------------------------------------------------------
-- State
------------------------------------------------------------

namespace Chip8

namespace Checked

/- The state of a machine with a bare call stack. -/
structure State where
  registers : Registers
  memory : Memory
  pc : UInt16
  index : UInt16
  stack : Stack
  screen : Screen
  keypad : Keypad
  clock : TimerClock
  random : RandomSource
  mode : Mode
  config : Config

/- Put the font at its place. -/
def installFont (memory : Memory) : Except Trap Memory :=
  install memory 0x50 Font.glyphs

------------------------------------------------------------
-- Loops
------------------------------------------------------------

/- The bytes at `count` addresses from `start + first` on. -/
def readBytes
    (memory : Memory)
    (start : UInt16)
    (first : Nat) : Nat → Except Trap (List UInt8)
| 0 => .ok []
| count + 1 => do
    let value ← getByte memory (start + UInt16.ofNat first)
    let values ← readBytes memory start (first + 1) count
    .ok (value :: values)

/- Store `count` registers from the one at `first` on. -/
def storeRegisters
    (v : Registers)
    (memory : Memory)
    (start : UInt16)
    (first : Nat) : Nat → Except Trap Memory
| 0 => .ok memory
| count + 1 => do
    let value ← getRegister v (UInt8.ofNat first)
    let memory ←
      setByte memory (start + UInt16.ofNat first) value
    storeRegisters v memory start (first + 1) count

/- Load `count` registers from the one at `first` on. -/
def loadRegisters
    (v : Registers)
    (memory : Memory)
    (start : UInt16)
    (first : Nat) : Nat → Except Trap Registers
| 0 => .ok v
| count + 1 => do
    let value ← getByte memory (start + UInt16.ofNat first)
    let v ← setRegister v (UInt8.ofNat first) value
    loadRegisters v memory start (first + 1) count

/- Store the hundreds, tens and ones of a byte. -/
def storeDecimal
    (memory : Memory)
    (start : UInt16)
    (value : UInt8) : Except Trap Memory := do
  let memory ← setByte memory start (value / 100)
  let memory ←
    setByte memory (start + 1) (value / 10 % 10)
  setByte memory (start + 2) (value % 10)

/- Set VF if an operation has a flag, then VX. -/
def combine
    (v : Registers)
    (operation : Operation)
    (x y : Register) : Except Trap Registers := do
  let a ← getRegister v x.toByte
  let b ← getRegister v y.toByte
  match operation.flag? a b with
  | some on => do
      let v ← setFlag v on
      setRegister v x.toByte (operation.result a b)
  | none => setRegister v x.toByte (operation.result a b)

------------------------------------------------------------
-- Instructions
------------------------------------------------------------

namespace State

def setRegister
    (s : State)
    (r : UInt8)
    (value : UInt8) : Except Trap State := do
  let v ← Checked.setRegister s.registers r value
  .ok { s with registers := v }

def holds (s : State) : Condition → Except Trap Bool
| .equalsByte x byte => do
    let a ← getRegister s.registers x.toByte
    .ok (a = byte)
| .differsByte x byte => do
    let a ← getRegister s.registers x.toByte
    .ok (a ≠ byte)
| .equalsRegister x y => do
    let a ← getRegister s.registers x.toByte
    let b ← getRegister s.registers y.toByte
    .ok (a = b)
| .differsRegister x y => do
    let a ← getRegister s.registers x.toByte
    let b ← getRegister s.registers y.toByte
    .ok (a ≠ b)
| .keyHeld x => do
    let key ← getRegister s.registers x.toByte
    isHeld s.keypad key
| .keyFree x => do
    let key ← getRegister s.registers x.toByte
    let held ← isHeld s.keypad key
    .ok (!held)

def drawSprite
    (s : State)
    (x y : Register)
    (rows : Nibble) : Except Trap State := do
  let a ← getRegister s.registers x.toByte
  let b ← getRegister s.registers y.toByte
  let sprite ← readBytes s.memory s.index 0 rows.val
  let drawn ← draw s.screen a b sprite
  let v ← setFlag s.registers drawn.2
  .ok
    { s with
      screen := drawn.1
      registers := v }

def execute
    (s : State) : Instruction → Except Trap (State × Flow)
| .clearScreen =>
    .ok ({ s with screen := s.screen.clear }, .next)
| .ret => do
    let popped ← s.stack.pop s.pc
    match popped with
    | .ok (a, stack) =>
        .ok ({ s with stack := stack }, .goto a)
    | .error _ => .ok (s, .next)
| .jump target => .ok (s, .goto target.toAddress)
| .call target => do
    let pushed ← s.stack.push (s.pc + 2) s.pc
    match pushed with
    | .ok stack =>
        .ok
          ({ s with stack := stack }, .goto target.toAddress)
    | .error _ => .ok (s, .next)
| .skipIf condition => do
    let held ← s.holds condition
    .ok (s, .skipIf held)
| .setByte x byte => do
    let s ← s.setRegister x.toByte byte
    .ok (s, .next)
| .addByte x byte => do
    let a ← getRegister s.registers x.toByte
    let s ← s.setRegister x.toByte (a + byte)
    .ok (s, .next)
| .combine operation x y => do
    let v ← combine s.registers operation x y
    .ok ({ s with registers := v }, .next)
| .setIndex target =>
    .ok ({ s with index := target.toAddress }, .next)
| .jumpOffset target => do
    let offset ← getRegister s.registers 0
    .ok
      (s,
        .goto (target.toAddress + UInt16.ofNat offset.toNat))
| .random x mask => do
    let drawn := s.random.draw
    let s ←
      { s with random := drawn.2 }.setRegister x.toByte
        (drawn.1 &&& mask)
    .ok (s, .next)
| .draw x y rows => do
    let s ← s.drawSprite x y rows
    .ok (s, .next)
| .getDelay x => do
    let s ← s.setRegister x.toByte s.clock.delay
    .ok (s, .next)
| .awaitKey x =>
    match s.keypad.firstHeld with
    | some key => do
        let s ← s.setRegister x.toByte key.toByte
        .ok (s, .next)
    | none => .ok ({ s with mode := .awaitingKey x }, .wait)
| .setDelay x => do
    let a ← getRegister s.registers x.toByte
    .ok ({ s with clock.delay := a }, .next)
| .setSound x => do
    let a ← getRegister s.registers x.toByte
    .ok ({ s with clock.sound := a }, .next)
| .addIndex x => do
    let a ← getRegister s.registers x.toByte
    .ok
      ({ s with index := s.index + UInt16.ofNat a.toNat },
        .next)
| .pointGlyph x => do
    let digit ← getRegister s.registers x.toByte
    let a ← glyphAddress digit
    .ok ({ s with index := a }, .next)
| .storeDecimal x => do
    let a ← getRegister s.registers x.toByte
    let memory ← Checked.storeDecimal s.memory s.index a
    .ok ({ s with memory := memory }, .next)
| .store x => do
    let memory ←
      storeRegisters s.registers s.memory s.index 0
        (x.val + 1)
    .ok ({ s with memory := memory }, .next)
| .load x => do
    let v ←
      loadRegisters s.registers s.memory s.index 0
        (x.val + 1)
    .ok ({ s with registers := v }, .next)
| .unknown _ => .ok (s, .next)

------------------------------------------------------------
-- Cycles
------------------------------------------------------------

def dispatch
    (s : State) : Except Trap (State × Option Instruction) := do
  let word ← fetch s.memory s.pc
  let instruction ← decode word
  let effect ← s.execute instruction
  let pc := effect.2.destination effect.1.pc
  .ok
    ({ effect.1 with pc := pc },
      if effect.2 = .wait then none else some instruction)

def resume
    (s : State)
    (r : Register) :
    Except Trap (State × Option Instruction) :=
  match s.keypad.firstHeld with
  | none => .ok (s, none)
  | some key => do
      let s ← s.setRegister r.toByte key.toByte
      .ok
        ({ s with
            pc := s.pc + 2
            mode := .running },
          some (.awaitKey r))

def cycle
    (s : State) : Except Trap (State × Option Instruction) :=
  match s.mode with
  | .running => s.dispatch
  | .awaitingKey r => s.resume r

def cycles
    (s : State) :
    Nat → Except Trap (State × List (Option Instruction))
| 0 => .ok (s, [])
| count + 1 => do
    let first ← s.cycle
    let rest ← first.1.cycles count
    .ok (rest.1, first.2 :: rest.2)

------------------------------------------------------------
-- Host Actions
------------------------------------------------------------

def call
    (s : State) : HostCall → Except Trap (State × Answer)
| .load program =>
    if program.length ≤ Memory.programLimit then do
      let memory ← install s.memory 0x200 program
      .ok
        ({ s with
            memory := memory
            pc := 0x200
            mode := .running },
          .loaded (.ok ()))
    else
      .ok
        (s,
          .loaded
            (.error
              (.programTooLarge program.length
                Memory.programLimit)))
| .reset => do
    let memory ← installFont s.memory.wipe
    .ok
      ({ s with
          registers := s.registers.reset
          memory := memory
          pc := 0x200
          index := 0
          stack := s.stack.reset
          screen := s.screen.clear
          keypad := s.keypad.reset
          clock := s.clock.reset
          mode := .running },
        .done)
| .setKey index down =>
    .ok
      ({ s with keypad := (s.keypad.set index down).1 },
        .done)
| .cycle => do
    let after ← s.cycle
    .ok (after.1, .cycled [after.2])
| .step delta => do
    let after ← s.cycles s.config.cyclesPerStep.toNat
    .ok
      ({ after.1 with
          clock := (after.1.clock.advance delta).1 },
        .cycled after.2)

def act (s : State) : HostAction → Except Trap State
| .call call => do
    let after ← s.call call
    .ok after.1
| .setByte a value => do
    let memory ← setByte s.memory a value
    .ok { s with memory := memory }
| .setRegister r value => s.setRegister r value
| .jump a => .ok { s with pc := a }
| .setIndex a => .ok { s with index := a }
| .push a pc => do
    let pushed ← s.stack.push a pc
    match pushed with
    | .ok stack => .ok { s with stack := stack }
    | .error _ => .ok s
| .pop pc => do
    let popped ← s.stack.pop pc
    match popped with
    | .ok (_, stack) => .ok { s with stack := stack }
    | .error _ => .ok s

def acts (s : State) : List HostAction → Except Trap State
| [] => .ok s
| action :: actions => do
    let after ← s.act action
    after.acts actions

end State

/- A new machine. -/
def initial
    (config : Config)
    (random : RandomSource) : Except Trap State := do
  let memory ← installFont .blank
  .ok
    { registers := .zero
      memory := memory
      pc := 0x200
      index := 0
      stack := .empty
      screen := .blank
      keypad := .released
      clock := .zero
      random := random
      mode := .running
      config := config }

/- What becomes of a new machine under a list of actions. -/
def run
    (config : Config)
    (random : RandomSource)
    (actions : List HostAction) : Except Trap State := do
  let s ← initial config random
  s.acts actions

end Checked

end Chip8
