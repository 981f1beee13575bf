import Chip8.Fault
import Chip8.Machine.State
import Chip8.Proofs.Checked.Access

/-
  This file defines the parts of a machine whose accesses are
  checked, and shows of each that it never traps and does what
  the part of the machine does.

  Key definitions include:
    * `Checked.getRegister`, `Checked.setRegister`
    * `Checked.getByte`, `Checked.setByte`
    * `Checked.install`
    * `Checked.glyphAddress`
    * `Checked.isHeld`
    * `Checked.Stack`

  The call stack is bare: only the checks keep its pointer
  among the slots.
-/

------------------------------------------------------------
-- Low Nibbles
------------------------------------------------------------

namespace Chip8

namespace Nibble

/- Masking a byte with four bits leaves its low nibble. -/
theorem toNat_and_mask (b : UInt8) :
    (b &&& 0xF).toNat = (ofByte b).val := by
  have hMask :=
    Nat.and_two_pow_sub_one_eq_mod b.toNat 4
  simpa [ofByte, ofNat] using hMask

end Nibble

namespace Checked

------------------------------------------------------------
-- Registers
------------------------------------------------------------

/- The number of a register is masked before it is used. -/
def getRegister
    (v : Registers)
    (r : UInt8) : Except Trap UInt8 :=
  read v.cells (r &&& 0xF).toNat

def setRegister
    (v : Registers)
    (r : UInt8)
    (value : UInt8) : Except Trap Registers := do
  let cells ← write v.cells (r &&& 0xF).toNat value
  .ok ⟨cells⟩

def setFlag
    (v : Registers)
    (on : Bool) : Except Trap Registers :=
  setRegister v 0xF (if on then 1 else 0)

@[simp] theorem getRegister_eq
    (v : Registers)
    (r : UInt8) :
    getRegister v r = .ok (v.get (Nibble.ofByte r)) := by
  rw [getRegister, Nibble.toNat_and_mask, read_val]
  rfl

@[simp] theorem setRegister_eq
    (v : Registers)
    (r value : UInt8) :
    setRegister v r value =
      .ok (v.set (Nibble.ofByte r) value) := by
  rw [setRegister, Nibble.toNat_and_mask, write_val]
  rfl

@[simp] theorem setFlag_eq
    (v : Registers)
    (on : Bool) :
    setFlag v on = .ok (v.setFlag on) :=
  setRegister_eq v 0xF _

------------------------------------------------------------
-- Memory
------------------------------------------------------------

def getByte
    (memory : Memory)
    (a : UInt16) : Except Trap UInt8 :=
  read memory.bytes (a.toNat % 4096)

def setByte
    (memory : Memory)
    (a : UInt16)
    (value : UInt8) : Except Trap Memory := do
  let bytes ← write memory.bytes (a.toNat % 4096) value
  .ok ⟨bytes⟩

def fetch
    (memory : Memory)
    (a : UInt16) : Except Trap Word := do
  let high ← getByte memory a
  let low ← getByte memory (a + 1)
  .ok (UInt16.ofNat (high.toNat * 256 + low.toNat))

/- Copy bytes to the run of cells that begins at a number; the
  number of its end is computed first. -/
def install
    (memory : Memory)
    (start : Nat)
    (values : List UInt8) : Except Trap Memory := do
  let stop ← add sizeRange start values.length
  let bytes ← copyInto memory.bytes start stop values
  .ok ⟨bytes⟩

@[simp] theorem getByte_eq
    (memory : Memory)
    (a : UInt16) :
    getByte memory a = .ok (memory.get a) :=
  read_val memory.bytes (Memory.cell a)

@[simp] theorem setByte_eq
    (memory : Memory)
    (a : UInt16)
    (value : UInt8) :
    setByte memory a value = .ok (memory.set a value) := by
  have hWritten :
      write memory.bytes (a.toNat % 4096) value =
        .ok (memory.set a value).bytes :=
    write_val memory.bytes (Memory.cell a) value
  simp [setByte, hWritten]

@[simp] theorem fetch_eq
    (memory : Memory)
    (a : UInt16) :
    fetch memory a = .ok (memory.fetch a) := by
  simp [fetch, Memory.fetch]

theorem writeAll_bytes
    (memory : Memory)
    (a : UInt16)
    (values : List UInt8)
    (hFits : (Memory.cell a).val + values.length ≤ 4096) :
    writeAll memory.bytes (Memory.cell a).val values =
      .ok (memory.write a values).bytes := by
  induction values generalizing memory a with
  | nil => rfl
  | cons value values ih =>
      rw [List.length_cons] at hFits
      have hNext := Memory.cell_add a 1
      rw [writeAll, write_val, ok_bind]
      cases values with
      | nil => rfl
      | cons second values =>
          rw [List.length_cons] at hFits
          have hCell :
              (Memory.cell a).val + 1 =
                (Memory.cell (a + 1)).val := by
            rw [show (1 : UInt16) = UInt16.ofNat 1 from rfl,
              hNext]
            omega
          have hRest :
              (Memory.cell (a + 1)).val +
                  (second :: values).length ≤ 4096 := by
            rw [List.length_cons]
            omega
          rw [hCell]
          exact ih (memory.set a value) (a + 1) hRest

theorem install_eq
    (memory : Memory)
    {start : Nat}
    {values : List UInt8}
    (hFits : start + values.length ≤ 4096)
    (hStart : start < 4096) :
    install memory start values =
      .ok (memory.write (UInt16.ofNat start) values) := by
  have hCell :
      (Memory.cell (UInt16.ofNat start)).val = start := by
    simp only [Memory.cell, UInt16.toNat_ofNat']
    omega
  have hWritten :=
    writeAll_bytes memory (UInt16.ofNat start) values
      (by rw [hCell]; exact hFits)
  rw [hCell] at hWritten
  have hStop : start + values.length < sizeRange := by
    simp only [sizeRange]
    omega
  simp [install, add_of_lt hStop, copyInto_of_le _ hFits,
    hWritten]

------------------------------------------------------------
-- Font and Keypad
------------------------------------------------------------

/- The address of a glyph in sixteen bits. -/
def glyphAddress (digit : UInt8) : Except Trap UInt16 := do
  let offset ← mul wordRange digit.toNat 5
  let a ← add wordRange 0x50 offset
  .ok (UInt16.ofNat a)

def isHeld
    (keypad : Keypad)
    (key : UInt8) : Except Trap Bool :=
  read keypad.keys (key &&& 0xF).toNat

@[simp] theorem glyphAddress_eq (digit : UInt8) :
    glyphAddress digit = .ok (Font.address digit) := by
  have hLt := digit.toNat_lt
  have hOffset : digit.toNat * 5 < wordRange := by
    simp only [wordRange]
    omega
  have hAddress : 0x50 + digit.toNat * 5 < wordRange := by
    simp only [wordRange]
    omega
  simp [glyphAddress, mul_of_lt hOffset, add_of_lt hAddress,
    Font.address, Font.start, Font.glyphSize]

@[simp] theorem isHeld_eq
    (keypad : Keypad)
    (key : UInt8) :
    isHeld keypad key = .ok (keypad.isHeld key) := by
  rw [isHeld, Nibble.toNat_and_mask, read_val]
  rfl

------------------------------------------------------------
-- Call Stack
------------------------------------------------------------

/- Slots and a pointer that may be any number. -/
structure Stack where
  slots : Cells UInt16 16
  pointer : Nat

namespace Stack

def empty : Stack :=
  ⟨.fill 16 0, 0⟩

def reset (_stack : Stack) : Stack :=
  empty

def ofCallStack (stack : CallStack) : Stack :=
  ⟨stack.slots, stack.depth⟩

def push
    (stack : Stack)
    (a : UInt16)
    (pc : UInt16) : Except Trap (Except Fault Stack) :=
  if 16 ≤ stack.pointer then
    .ok (.error (.stackOverflow pc))
  else do
    let slots ← write stack.slots stack.pointer a
    let pointer ← add sizeRange stack.pointer 1
    .ok (.ok ⟨slots, pointer⟩)

def pop
    (stack : Stack)
    (pc : UInt16) :
    Except Trap (Except Fault (UInt16 × Stack)) :=
  if stack.pointer = 0 then
    .ok (.error (.stackUnderflow pc))
  else do
    let pointer ← sub stack.pointer 1
    let a ← read stack.slots pointer
    .ok (.ok (a, ⟨stack.slots, pointer⟩))

def frames (stack : Stack) : Except Trap (List UInt16) :=
  take stack.slots stack.pointer

@[simp] theorem push_ofCallStack
    (stack : CallStack)
    (a pc : UInt16) :
    (ofCallStack stack).push a pc =
      .ok ((stack.push a pc).map ofCallStack) := by
  by_cases hRoom : stack.depth < 16
  · have hDepth : ¬ 16 ≤ stack.depth := by omega
    have hNext : stack.depth + 1 < sizeRange := by
      simp only [sizeRange]
      omega
    simp [push, CallStack.push, ofCallStack, hDepth, hRoom,
      write_of_lt _ hRoom, add_of_lt hNext, Except.map]
  · have hDepth : 16 ≤ stack.depth := by omega
    simp [push, CallStack.push, ofCallStack, hDepth, hRoom,
      Except.map]

@[simp] theorem pop_ofCallStack
    (stack : CallStack)
    (pc : UInt16) :
    (ofCallStack stack).pop pc =
      .ok
        ((stack.pop pc).map fun taken =>
          (taken.1, ofCallStack taken.2)) := by
  have hLe := stack.depth_le
  by_cases hEmpty : stack.depth = 0
  · simp [pop, CallStack.pop, ofCallStack, hEmpty, Except.map]
  · have hOne : 1 ≤ stack.depth := by omega
    have hTop : stack.depth - 1 < 16 := by omega
    simp [pop, CallStack.pop, ofCallStack, hEmpty,
      sub_of_le hOne, read_of_lt _ hTop, Except.map]

@[simp] theorem frames_ofCallStack (stack : CallStack) :
    (ofCallStack stack).frames = .ok stack.frames :=
  if_pos stack.depth_le

end Stack

end Checked

end Chip8
