import Chip8.CallStack
import Chip8.Keypad
import Chip8.Memory
import Chip8.Random.Source
import Chip8.Registers
import Chip8.Screen
import Chip8.Timer

/-
  This file defines the state of the machine and the small
  steps on its address registers.

  Key definitions include:
    * `Machine`, `Mode`, `Config`
    * `Machine.initial`, `Machine.cleared`
    * `Machine.advance`, `Machine.skip`, `Machine.jumpTo`
    * `Machine.fetched`, `Machine.current`

  What the resets of the parts come to is settled by:
    * `Machine.cleared_eq_initial`
-/

------------------------------------------------------------
-- State
------------------------------------------------------------

namespace Chip8

/- How many instructions one step of the host runs. -/
structure Config where
  cyclesPerStep : UInt32 := 10
deriving DecidableEq

/- Whether the machine runs or waits for a key. -/
inductive Mode where
  | running
  /- The number of the next held key goes to this register. -/
  | awaitingKey (register : Register)
deriving DecidableEq

/- The whole state of the machine. -/
structure Machine where
  registers : Registers
  memory : Memory
  pc : UInt16
  index : UInt16
  stack : CallStack
  screen : Screen
  keypad : Keypad
  clock : TimerClock
  random : RandomSource
  mode : Mode
  config : Config

namespace Machine

/- A new machine. -/
def initial
    (config : Config)
    (random : RandomSource) : Machine where
  registers := .zero
  memory := .initial
  pc := Memory.programStart
  index := 0
  stack := .empty
  screen := .blank
  keypad := .released
  clock := .zero
  random := random
  mode := .running
  config := config

/-
  Every part brought back to its beginning by itself, except
  for the random source and the configuration.
-/
def cleared (m : Machine) : Machine :=
  { m with
    registers := m.registers.reset
    memory := m.memory.reset
    pc := Memory.programStart
    index := 0
    stack := m.stack.reset
    screen := m.screen.clear
    keypad := m.keypad.reset
    clock := m.clock.reset
    mode := .running }

/- What the resets leave is what a new machine is built of. -/
theorem cleared_eq_initial (m : Machine) :
    m.cleared = initial m.config m.random := by
  simp [cleared, initial]

------------------------------------------------------------
-- Address Registers
------------------------------------------------------------

/- The address of the next instruction. -/
def following (m : Machine) : UInt16 :=
  m.pc + 2

/- Go on to the next instruction. -/
def advance (m : Machine) : Machine :=
  { m with pc := m.following }

/- Go on to the instruction after the next one. -/
def skip (m : Machine) : Machine :=
  { m with pc := m.pc + 4 }

/- Go to an address. -/
def jumpTo
    (m : Machine)
    (a : UInt16) : Machine :=
  { m with pc := a }

/- Set the index register. -/
def setIndex
    (m : Machine)
    (a : UInt16) : Machine :=
  { m with index := a }

/- Add a byte to the index register modulo 65536. -/
def addIndex
    (m : Machine)
    (value : UInt8) : Machine :=
  { m with index := m.index + UInt16.ofNat value.toNat }

------------------------------------------------------------
-- Registers, Memory and Timers
------------------------------------------------------------

/- Put a value into a data register. -/
def setRegister
    (m : Machine)
    (r : Register)
    (value : UInt8) : Machine :=
  { m with registers := m.registers.set r value }

/- Put bytes at consecutive addresses. -/
def write
    (m : Machine)
    (a : UInt16)
    (values : List UInt8) : Machine :=
  { m with memory := m.memory.write a values }

/- Put a program into memory and go to its start. -/
def install
    (m : Machine)
    (program : List UInt8) : Machine :=
  (m.write Memory.programStart program).jumpTo
    Memory.programStart

/- Set the delay timer. -/
def setDelay
    (m : Machine)
    (value : UInt8) : Machine :=
  { m with clock.delay := value }

/- Set the sound timer. -/
def setSound
    (m : Machine)
    (value : UInt8) : Machine :=
  { m with clock.sound := value }

------------------------------------------------------------
-- Observations
------------------------------------------------------------

/- The word that the program counter points at. -/
def fetched (m : Machine) : Word :=
  m.memory.fetch m.pc

/- The instruction that the program counter points at. -/
def current (m : Machine) : Instruction :=
  .decode m.fetched

/- Whether the host should sound its tone. -/
def soundActive (m : Machine) : Bool :=
  0 < m.clock.sound

/- Whether the machine waits for a key. -/
def isAwaitingKey (m : Machine) : Bool :=
  m.mode ≠ .running

end Machine

end Chip8
