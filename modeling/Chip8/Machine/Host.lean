import Chip8.Machine.Execute

/-
  This file defines what the host of the machine can do: run
  cycles and steps, install programs, reset, and tell about
  keys.

  Key definitions include:
    * `Machine.dispatch`
    * `Machine.cycle`, `Machine.cycles`
    * `Machine.step`
    * `Machine.load`, `Machine.reset`, `Machine.setKey`
-/

------------------------------------------------------------
-- Cycles
------------------------------------------------------------

namespace Chip8

namespace Machine

/- Move the program counter as a flow tells. -/
def follow (m : Machine) : Flow → Machine
| .next => m.advance
| .skip => m.skip
| .goto a => m.jumpTo a
| .wait => m

/- Carry out the instruction at the program counter. -/
def dispatch (m : Machine) : Outcome (Option Instruction) :=
  let instruction := m.current
  let effect := m.execute instruction
  { machine := effect.machine.follow effect.result
    result :=
      if effect.result = .wait then none else some instruction
    notices :=
      .dispatched m.pc instruction :: effect.notices }

/-
  While the machine waits for a key: end the wait if one is
  held.
-/
def resume
    (m : Machine)
    (r : Register) : Outcome (Option Instruction) :=
  match m.keypad.firstHeld with
  | none => .quiet m none
  | some key =>
      { machine :=
          { m.setRegister r key.toByte with
            mode := .running }.advance
        result := some (.awaitKey r)
        notices := [.keyReleasedWait key r] }

/-
  One cycle.  Its result is the instruction that it completed,
  or nothing while the machine waits for a key.
-/
def cycle (m : Machine) : Outcome (Option Instruction) :=
  match m.mode with
  | .running => m.dispatch
  | .awaitingKey r => m.resume r

/- Several cycles, with all their results. -/
def cycles
    (m : Machine) : Nat → Outcome (List (Option Instruction))
| 0 => .quiet m []
| count + 1 =>
    let first := m.cycle
    let rest := first.machine.cycles count
    { machine := rest.machine
      result := first.result :: rest.result
      notices := first.notices ++ rest.notices }

------------------------------------------------------------
-- Host Operations
------------------------------------------------------------

/-
  Run the configured count of cycles, then let time elapse on
  the timers.
-/
def step
    (m : Machine)
    (delta : Float) : Outcome Unit :=
  let batch := m.cycles m.config.cyclesPerStep.toNat
  let after := batch.machine
  { machine :=
      { after with clock := (after.clock.advance delta).1 }
    result := ()
    notices := batch.notices }

/-
  Install a program and start it.  A program that is too large
  changes nothing.
-/
def load
    (m : Machine)
    (program : List UInt8) : Outcome (Except Fault Unit) :=
  if program.length ≤ Memory.programLimit then
    { machine := { m.install program with mode := .running }
      result := .ok ()
      notices := [.programLoaded program.length] }
  else
    .quiet m
      (.error
        (.programTooLarge program.length
          Memory.programLimit))

/- Bring the machine back to its beginning. -/
def reset (m : Machine) : Outcome Unit :=
  ⟨m.cleared, (), [.machineReset]⟩

/- Take in a key event. -/
def setKey
    (m : Machine)
    (index : Nat)
    (down : Bool) : Outcome Unit :=
  let event := m.keypad.set index down
  ⟨{ m with keypad := event.1 }, (), event.2⟩

end Machine

end Chip8
