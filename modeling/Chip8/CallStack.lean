import Chip8.Cells
import Chip8.Fault

/-
  This file defines the call stack: sixteen slots of which the
  lower ones hold return addresses.

  Key definitions include:
    * `CallStack`
    * `CallStack.frames`
    * `CallStack.push`, `CallStack.pop`
    * `CallStack.reset`
-/

------------------------------------------------------------
-- Call Stack
------------------------------------------------------------

namespace Chip8

/-
  Sixteen slots and the count of slots in use.  A slot above
  the count keeps what was last written to it.
-/
structure CallStack where
  slots : Cells UInt16 16
  depth : Nat
  depth_le : depth ≤ 16

namespace CallStack

/- No return address. -/
def empty : CallStack where
  slots := .fill 16 0
  depth := 0
  depth_le := by decide

/- The return addresses, oldest first. -/
def frames (stack : CallStack) : List UInt16 :=
  stack.slots.toList.take stack.depth

/-
  Put a return address on the stack.  The address of the call
  describes a failure.
-/
def push
    (stack : CallStack)
    (a : UInt16)
    (pc : UInt16) : Except Fault CallStack :=
  if h : stack.depth < 16 then
    .ok
      { slots := stack.slots.write ⟨stack.depth, h⟩ a
        depth := stack.depth + 1
        depth_le := h }
  else
    .error (.stackOverflow pc)

/-
  Take the newest return address off the stack.  The address of
  the return describes a failure.
-/
def pop
    (stack : CallStack)
    (pc : UInt16) : Except Fault (UInt16 × CallStack) :=
  if h : stack.depth = 0 then
    .error (.stackUnderflow pc)
  else
    have top_lt : stack.depth - 1 < 16 := by
      have := stack.depth_le
      omega
    .ok
      (stack.slots.read ⟨stack.depth - 1, top_lt⟩,
        { slots := stack.slots
          depth := stack.depth - 1
          depth_le := Nat.le_of_lt top_lt })

/- Start anew with no return address. -/
def reset (_stack : CallStack) : CallStack :=
  empty

@[simp] theorem reset_eq_empty (stack : CallStack) :
    stack.reset = empty :=
  rfl

@[simp] theorem length_frames (stack : CallStack) :
    stack.frames.length = stack.depth := by
  have := stack.depth_le
  simp [frames]
  omega

------------------------------------------------------------
-- Pushing and Popping Frames
------------------------------------------------------------

/- A push appends its address. -/
theorem frames_push
    {stack pushed : CallStack}
    {a pc : UInt16}
    (h : stack.push a pc = .ok pushed) :
    pushed.frames = stack.frames ++ [a] := by
  unfold push at h
  split at h
  · rename_i hDepth
    obtain rfl := Except.ok.inj h
    have hKept :
        List.take stack.depth
            (stack.slots.set stack.depth a hDepth).toList =
          List.take stack.depth stack.slots.toList := by
      rw [Vector.toList_set,
        List.take_set_of_le (Nat.le_refl _)]
    simp [frames, Cells.write, List.take_add_one, hDepth,
      hKept]
  · simp at h

theorem push_full
    {stack : CallStack}
    {a pc : UInt16}
    (h : stack.depth = 16) :
    stack.push a pc = .error (.stackOverflow pc) := by
  simp [push, h]

/- A pop removes the newest address. -/
theorem frames_pop
    {stack popped : CallStack}
    {a pc : UInt16}
    (h : stack.pop pc = .ok (a, popped)) :
    stack.frames = popped.frames ++ [a] := by
  unfold pop at h
  split at h
  · simp at h
  · rename_i hDepth
    obtain ⟨rfl, rfl⟩ := Prod.mk.inj (Except.ok.inj h)
    have hLe := stack.depth_le
    have hSucc : stack.depth = stack.depth - 1 + 1 := by
      omega
    have hLt : stack.depth - 1 < 16 := by
      omega
    simp only [frames]
    conv => lhs; rw [hSucc]
    simp [Cells.read, List.take_add_one, hLt]

theorem pop_empty
    {stack : CallStack}
    {pc : UInt16}
    (h : stack.depth = 0) :
    stack.pop pc = .error (.stackUnderflow pc) := by
  simp [pop, h]

end CallStack

end Chip8
