import Chip8.Proofs.HostRun

/-
  This file extends the calls of the host by direct access: a
  host can also write memory, registers and address registers
  and push and pop frames on its own.

  Key definitions include:
    * `HostAction`, `Reply`
    * `Machine.act`, `Machine.acts`
    * `Machine.reply`, `Machine.chronicle`
-/

------------------------------------------------------------
-- Direct Access
------------------------------------------------------------

namespace Chip8

/- What a host with direct access can do to the machine. -/
inductive HostAction where
  | call (call : HostCall)
  | setByte (a : UInt16) (value : UInt8)
  | setRegister (r : UInt8) (value : UInt8)
  | jump (a : UInt16)
  | setIndex (a : UInt16)
  | push (a : UInt16) (pc : UInt16)
  | pop (pc : UInt16)

namespace Machine

/- The machine with a frame more, if there is room for it. -/
def pushFrame
    (m : Machine)
    (a : UInt16)
    (pc : UInt16) : Machine :=
  match m.stack.push a pc with
  | .ok stack => { m with stack := stack }
  | .error _ => m

/- The machine without its newest frame, if there is one. -/
def popFrame
    (m : Machine)
    (pc : UInt16) : Machine :=
  match m.stack.pop pc with
  | .ok (_, stack) => { m with stack := stack }
  | .error _ => m

/-
  The machine after an action.  The number of a register is
  taken modulo sixteen.
-/
def act (m : Machine) : HostAction → Machine
| .call call => m.after call
| .setByte a value =>
    { m with memory := m.memory.set a value }
| .setRegister r value =>
    m.setRegister (Nibble.ofByte r) value
| .jump a => m.jumpTo a
| .setIndex a => m.setIndex a
| .push a pc => m.pushFrame a pc
| .pop pc => m.popFrame pc

def acts (m : Machine) : List HostAction → Machine
| [] => m
| action :: actions => (m.act action).acts actions

end Machine

------------------------------------------------------------
-- Replies
------------------------------------------------------------

/- What a host with direct access gets back. -/
inductive Reply where
  /- Nothing but that the access is over. -/
  | done
  /- The answer to a call. -/
  | answered (answer : Answer)
  /- How putting a frame on the stack ended. -/
  | pushed (result : Except Fault Unit)
  /- The frame taken off the stack, if there was one. -/
  | popped (result : Except Fault UInt16)

namespace Machine

/- What the host gets back from an action. -/
def reply (m : Machine) : HostAction → Reply
| .call call => .answered (m.answer call)
| .push a pc =>
    .pushed ((m.stack.push a pc).map fun _ => ())
| .pop pc => .popped ((m.stack.pop pc).map Prod.fst)
| .setByte .. | .setRegister .. => .done
| .jump _ | .setIndex _ => .done

/- The machine after each action of a list, with the reply. -/
def chronicle
    (m : Machine) : List HostAction → List (Machine × Reply)
| [] => []
| action :: actions =>
    (m.act action, m.reply action) ::
      (m.act action).chronicle actions

end Machine

end Chip8
