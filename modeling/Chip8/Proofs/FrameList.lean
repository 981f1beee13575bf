import Chip8.CallStack

/-
  This file shows that the call stack is a list of at most
  sixteen return addresses.  Calls of the stack are answered
  as calls of the list of its frames are, so that what pops
  have left in the slots above the frames never shows.

  Key definitions include:
    * `StackCall`, `StackReply`, `StackCall.run`
    * `CallStack.reply`, `CallStack.run`
    * `FrameList`, `FrameList.reply`, `FrameList.run`

  The main statements are:
    * `CallStack.reply_frames`
    * `CallStack.run_frames`
    * `CallStack.stack_is_frame_list`
-/

------------------------------------------------------------
-- Calls of a Stack
------------------------------------------------------------

namespace Chip8

/- What is asked of a call stack. -/
inductive StackCall where
  /- Put an address on; the call stands at `pc`. -/
  | push (a : UInt16) (pc : UInt16)
  /- Take the newest address off; the return stands at `pc`. -/
  | pop (pc : UInt16)
  /- Take all addresses off. -/
  | reset

/-
  What comes back from a call: why it is refused, or the
  address that a pop has taken off, or nothing.
-/
abbrev StackReply :=
  Except Fault (Option UInt16)

/-
  The replies to a list of calls, in order, from whatever can
  reply to one call, and what is left of it.
-/
def StackCall.run
    {σ : Type}
    (reply : σ → StackCall → StackReply × σ)
    (state : σ) :
    List StackCall → List StackReply × σ
| [] => ([], state)
| call :: calls =>
    let first := reply state call
    let rest := run reply first.2 calls
    (first.1 :: rest.1, rest.2)

namespace CallStack

/- A reply and the stack after it, the same one if refused. -/
def reply
    (stack : CallStack) : StackCall → StackReply × CallStack
| .push a pc =>
    match stack.push a pc with
    | .ok pushed => (.ok none, pushed)
    | .error fault => (.error fault, stack)
| .pop pc =>
    match stack.pop pc with
    | .ok (a, popped) => (.ok (some a), popped)
    | .error fault => (.error fault, stack)
| .reset => (.ok none, stack.reset)

/- The replies to a list of calls, and the stack after it. -/
def run
    (stack : CallStack)
    (calls : List StackCall) : List StackReply × CallStack :=
  StackCall.run reply stack calls

end CallStack

------------------------------------------------------------
-- Lists of Frames
------------------------------------------------------------

/- At most sixteen return addresses, oldest first. -/
@[ext]
structure FrameList where
  frames : List UInt16
  length_le : frames.length ≤ 16

namespace FrameList

/- No return address. -/
def empty : FrameList :=
  ⟨[], by decide⟩

/- Put an address behind the others. -/
def append
    (list : FrameList)
    (hRoom : list.frames.length < 16)
    (a : UInt16) : FrameList where
  frames := list.frames ++ [a]
  length_le := by
    rw [List.length_append, List.length_singleton]
    exact hRoom

/- Leave the newest address out. -/
def dropLast (list : FrameList) : FrameList where
  frames := list.frames.dropLast
  length_le := by
    have := list.length_le
    rw [List.length_dropLast]
    omega

/- A reply and the list after it, the same one if refused. -/
def reply
    (list : FrameList) : StackCall → StackReply × FrameList
| .push a pc =>
    if hRoom : list.frames.length < 16 then
      (.ok none, list.append hRoom a)
    else
      (.error (.stackOverflow pc), list)
| .pop pc =>
    match list.frames.getLast? with
    | some a => (.ok (some a), list.dropLast)
    | none => (.error (.stackUnderflow pc), list)
| .reset => (.ok none, empty)

/- The replies to a list of calls, and the list after it. -/
def run
    (list : FrameList)
    (calls : List StackCall) : List StackReply × FrameList :=
  StackCall.run reply list calls

end FrameList

------------------------------------------------------------
-- The Frames of a Stack
------------------------------------------------------------

namespace CallStack

/- The frames of a stack, without the slots above them. -/
def frameList (stack : CallStack) : FrameList where
  frames := stack.frames
  length_le := by
    simpa using stack.depth_le

variable {stack : CallStack}

theorem push_of_room
    (hRoom : stack.depth < 16)
    (a pc : UInt16) :
    ∃ pushed, stack.push a pc = .ok pushed := by
  unfold push
  rw [dif_pos hRoom]
  exact ⟨_, rfl⟩

theorem pop_of_frame
    (hSome : stack.depth ≠ 0)
    (pc : UInt16) :
    ∃ a popped, stack.pop pc = .ok (a, popped) := by
  unfold pop
  rw [dif_neg hSome]
  exact ⟨_, _, rfl⟩

/- Slots above the depth have no part in the frames. -/
theorem frameList_congr
    {other : CallStack}
    (hDepth : other.depth = stack.depth)
    (hLive :
      ∀ i : Fin 16, i.val < stack.depth →
        other.slots.read i = stack.slots.read i) :
    other.frameList = stack.frameList := by
  apply FrameList.ext
  apply List.ext_getElem
  · simp [frameList, hDepth]
  · intro k _ hk
    have hMost := stack.depth_le
    have hDeep : k < stack.depth := by
      simpa [frameList] using hk
    have hSame := hLive ⟨k, by omega⟩ hDeep
    simpa [frameList, frames, Cells.read] using hSame

/- A call that is refused leaves the stack as it is. -/
theorem reply_of_refused
    {call : StackCall}
    {fault : Fault}
    (hRefused : (stack.reply call).1 = .error fault) :
    (stack.reply call).2 = stack := by
  cases call with
  | push a pc =>
      cases hPush : stack.push a pc with
      | ok pushed => simp [reply, hPush] at hRefused
      | error fault => simp [reply, hPush]
  | pop pc =>
      cases hPop : stack.pop pc with
      | ok taken => simp [reply, hPop] at hRefused
      | error fault => simp [reply, hPop]
  | reset => cases hRefused

/- A call of a stack is a call of the list of its frames. -/
theorem reply_frames
    (stack : CallStack)
    (call : StackCall) :
    (stack.reply call).1 = (stack.frameList.reply call).1 ∧
      (stack.reply call).2.frameList =
        (stack.frameList.reply call).2 := by
  cases call with
  | push a pc =>
      by_cases hRoom : stack.depth < 16
      · rcases push_of_room hRoom a pc with ⟨pushed, hPush⟩
        have hFrames := frames_push hPush
        simp [reply, hPush, FrameList.reply, frameList, hRoom,
          hFrames, FrameList.append]
      · have hFull : stack.depth = 16 := by
          have := stack.depth_le
          omega
        simp [reply, push_full hFull, FrameList.reply,
          frameList, hFull]
  | pop pc =>
      by_cases hEmpty : stack.depth = 0
      · have hFrames : stack.frames = [] := by
          rw [← List.length_eq_zero_iff]
          simpa using hEmpty
        simp [reply, pop_empty hEmpty, FrameList.reply,
          frameList, hFrames]
      · rcases pop_of_frame hEmpty pc with
          ⟨a, popped, hPop⟩
        have hFrames := frames_pop hPop
        simp [reply, hPop, FrameList.reply, frameList,
          hFrames, FrameList.dropLast]
  | reset => exact ⟨rfl, rfl⟩

/- A run of a stack is a run of the list of its frames. -/
theorem run_frames
    (stack : CallStack)
    (calls : List StackCall) :
    (stack.run calls).1 = (stack.frameList.run calls).1 ∧
      (stack.run calls).2.frameList =
        (stack.frameList.run calls).2 := by
  unfold run FrameList.run
  induction calls generalizing stack with
  | nil => exact ⟨rfl, rfl⟩
  | cons call calls ih =>
      rcases stack.reply_frames call with ⟨hReply, hAfter⟩
      rcases ih (stack.reply call).2 with ⟨hReplies, hEnd⟩
      rw [StackCall.run, StackCall.run, ← hAfter, ← hReply,
        hReplies, hEnd]
      exact ⟨rfl, rfl⟩

/-
  From the empty stack on, any calls are answered as calls of
  a list of at most sixteen addresses, and the frames are what
  this list holds.  A refused call leaves the stack as it is.
  Two stacks that differ in slots above the frames answer all
  later calls alike.
-/
theorem stack_is_frame_list (calls : List StackCall) :
    let stack := (empty.run calls).2
    let list := (FrameList.empty.run calls).2
    ((empty.run calls).1 = (FrameList.empty.run calls).1 ∧
        stack.frames = list.frames) ∧
      (stack.depth = stack.frames.length ∧
        stack.frames.length ≤ 16) ∧
      (∀ call fault,
        (stack.reply call).1 = .error fault →
          (stack.reply call).2 = stack) ∧
      ∀ other : CallStack,
        other.depth = stack.depth →
        (∀ i : Fin 16, i.val < stack.depth →
          other.slots.read i = stack.slots.read i) →
        ∀ later,
          (other.run later).1 = (stack.run later).1 ∧
            (other.run later).2.depth =
              (stack.run later).2.depth ∧
            (other.run later).2.frames =
              (stack.run later).2.frames := by
  intro stack list
  rcases empty.run_frames calls with ⟨hReplies, hFrames⟩
  refine ⟨⟨hReplies, ?_⟩, ⟨?_, ?_⟩, ?_, ?_⟩
  · exact congrArg FrameList.frames hFrames
  · exact stack.length_frames.symm
  · exact stack.frameList.length_le
  · intro call fault hRefused
    exact reply_of_refused hRefused
  · intro other hDepth hLive later
    have hSame := frameList_congr hDepth hLive
    rcases other.run_frames later with ⟨hOther, hOtherEnd⟩
    rcases stack.run_frames later with ⟨hStack, hStackEnd⟩
    rw [hSame] at hOther hOtherEnd
    have hEnd :
        (other.run later).2.frames =
          (stack.run later).2.frames :=
      congrArg FrameList.frames (hOtherEnd.trans hStackEnd.symm)
    refine ⟨hOther.trans hStack.symm, ?_, hEnd⟩
    rw [← length_frames, ← length_frames, hEnd]

/- Two calls, of which the second one has returned. -/
def calledTwice : List StackCall :=
  [.push 0x202 0x200, .push 0x302 0x300, .pop 0x400]

/-
  The second address is still in its slot, but what comes next
  is as if it had never been there, down to the return that
  finds no frame.
-/
theorem calledTwice_leaves_no_trace :
    let stack := (empty.run calledTwice).2
    let other := (empty.run [.push 0x202 0x200]).2
    let later : List StackCall :=
      [.push 0x502 0x500, .pop 0x600, .pop 0x700, .pop 0x800]
    (stack.slots ≠ other.slots ∧
        other.depth = stack.depth) ∧
      stack.frames = [0x202] ∧
      (other.run later).1 = (stack.run later).1 ∧
      (stack.run later).1 =
        [.ok none, .ok (some 0x502), .ok (some 0x202),
          .error (.stackUnderflow 0x800)] ∧
      (empty.reply (.pop 0x800)).2 = empty := by
  intro stack other later
  have hStale : stack.slots ≠ other.slots := by
    decide +kernel
  have hLive :
      ∀ i : Fin 16, i.val < stack.depth →
        other.slots.read i = stack.slots.read i := by
    decide +kernel
  rcases stack_is_frame_list calledTwice with
    ⟨⟨_, hFrames⟩, _, _, hAlike⟩
  have hRefused := (stack_is_frame_list []).2.2.1
  have hReplies := (hAlike other rfl hLive later).1
  exact
    ⟨⟨hStale, rfl⟩, hFrames, hReplies, rfl,
      hRefused (.pop 0x800) (.stackUnderflow 0x800) rfl⟩

end CallStack

end Chip8
