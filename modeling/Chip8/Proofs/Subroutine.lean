import Chip8.Proofs.Footprint
import Chip8.Proofs.HostRun

/-
  This file matches returns with calls over whole runs: the
  frames below and with a return address stay as they are
  until the depth falls below it, and then the program goes
  on behind the call.

  The main statements are:
    * `Machine.frames_cycle`
    * `Machine.call_matched_by_return`
-/

------------------------------------------------------------
-- Frames after One Cycle
------------------------------------------------------------

namespace Chip8

namespace Machine

/- A taken call puts the following address on the stack. -/
theorem frames_call
    {m : Machine}
    {target : Target}
    (hMode : m.mode = .running)
    (hCall : m.current = .call target)
    (hRoom : m.stack.depth < 16) :
    m.cycle.machine.stack.frames =
      m.stack.frames ++ [m.pc + 2] := by
  rw [cycle_running hMode, machine_dispatch, hCall]
  rcases m.executeCall_cases target with
    ⟨hFull, _⟩ | ⟨pushed, hPush, hEq⟩
  · omega
  · simp only [execute, hEq]
    exact CallStack.frames_push hPush

/-
  A cycle keeps the frames, adds one, or is a return that
  takes the newest one off and goes there.
-/
theorem frames_cycle (m : Machine) :
    m.cycle.machine.stack.frames = m.stack.frames ∨
    (∃ a,
      m.cycle.machine.stack.frames =
        m.stack.frames ++ [a]) ∨
    (m.mode = .running ∧
      m.current = .ret ∧
      m.cycle.result = some .ret ∧
      m.stack.frames =
        m.cycle.machine.stack.frames ++
          [m.cycle.machine.pc]) := by
  cases hMode : m.mode with
  | awaitingKey r =>
      apply Or.inl
      rw [cycle_awaiting hMode,
        (m.resume_footprint r).rest]
  | running =>
      rw [cycle_running hMode]
      rcases m.stack_execute m.current with
        hKept | hRet | ⟨target, hCall⟩
      · apply Or.inl
        rw [machine_dispatch]
        exact congrArg CallStack.frames hKept
      · rcases m.executeReturn_cases with
          ⟨_, hEq⟩ | ⟨a, popped, hPop, hEq⟩
        · apply Or.inl
          simp [machine_dispatch, hRet, execute, hEq]
        · apply Or.inr
          apply Or.inr
          have hFrames := CallStack.frames_pop hPop
          simp [dispatch, hRet, execute, hEq, follow, jumpTo,
            hFrames]
      · rcases m.executeCall_cases target with
          ⟨_, hEq⟩ | ⟨pushed, hPush, hEq⟩
        · apply Or.inl
          simp [machine_dispatch, hCall, execute, hEq]
        · apply Or.inr
          apply Or.inl
          refine ⟨m.following, ?_⟩
          simp only [machine_dispatch, hCall, execute, hEq]
          exact CallStack.frames_push hPush

/-
  Frames at the bottom of the stack stay through a cycle that
  leaves at least as many.
-/
theorem bottom_frames_cycle
    {m : Machine}
    {bottom : List UInt16}
    (hBottom : bottom <+: m.stack.frames)
    (hDeep : bottom.length ≤ m.cycle.machine.stack.depth) :
    bottom <+: m.cycle.machine.stack.frames := by
  rcases m.frames_cycle with
    hKept | ⟨a, hPushed⟩ | ⟨_, _, _, hPopped⟩
  · rw [hKept]
    exact hBottom
  · rw [hPushed]
    exact hBottom.trans (List.prefix_append _ _)
  · rw [hPopped, List.prefix_concat_iff] at hBottom
    rcases hBottom with hAll | hRest
    · have hLength := congrArg List.length hAll
      simp only [List.length_append, List.length_singleton,
        CallStack.length_frames] at hLength
      omega
    · exact hRest

/-
  A cycle that takes the last of the bottom frames off is the
  return to it.
-/
theorem return_of_bottom_frames
    {m : Machine}
    {caller : List UInt16}
    {a : UInt16}
    (hBottom : caller ++ [a] <+: m.stack.frames)
    (hShallow :
      m.cycle.machine.stack.depth ≤ caller.length) :
    m.mode = .running ∧
      m.current = .ret ∧
      m.cycle.result = some .ret ∧
      m.cycle.machine.pc = a ∧
      m.cycle.machine.stack.frames = caller := by
  have hDepth := hBottom.length_le
  rw [List.length_append, List.length_singleton,
    CallStack.length_frames] at hDepth
  rw [← CallStack.length_frames] at hDepth hShallow
  rcases m.frames_cycle with
    hKept | ⟨b, hPushed⟩ | ⟨hMode, hRet, hResult, hPopped⟩
  · rw [hKept] at hShallow
    omega
  · rw [hPushed, List.length_append] at hShallow
    omega
  · refine ⟨hMode, hRet, hResult, ?_⟩
    rw [hPopped, List.prefix_concat_iff] at hBottom
    rcases hBottom with hAll | hRest
    · rcases List.append_inj' hAll rfl with ⟨hCaller, hTop⟩
      cases hTop
      exact ⟨rfl, hCaller.symm⟩
    · have hLength := hRest.length_le
      rw [List.length_append,
        List.length_singleton] at hLength
      omega

------------------------------------------------------------
-- Matching Returns over Runs
------------------------------------------------------------

/-
  Idle calls other than a reset, and the clock, have no part
  in the stack.
-/
theorem stack_after_idle
    {call : HostCall}
    (hIdle : call.Idle)
    (hNoReset : call ≠ .reset)
    (m : Machine) :
    (m.after call).stack = m.stack := by
  cases call with
  | load program =>
      simp only [after, load]
      split <;> rfl
  | reset => exact absurd rfl hNoReset
  | setKey index down => rfl
  | cycle | step delta => exact hIdle.elim

/-
  The bottom frames stay through a run without a reset until
  a cycle takes the last of them off.
-/
theorem bottom_frames_run
    {m : Machine}
    {bottom : List UInt16}
    (hBottom : bottom <+: m.stack.frames)
    {calls : List HostCall}
    (hNoReset : HostCall.reset ∉ calls) :
    HoldsUntil
        (fun s => bottom <+: s.stack.frames)
        (fun s =>
          bottom.length ≤ s.cycle.machine.stack.depth)
        (m.starts calls) ∧
      ((∀ s ∈ m.starts calls,
          bottom.length ≤ s.cycle.machine.stack.depth) →
        bottom <+: (m.run calls).stack.frames) := by
  refine guarded_run ?_ ?_ calls ?_ m hBottom
  · intro s hs hDeep
    exact bottom_frames_cycle hs hDeep
  · intro s clock hs
    exact hs
  · intro call hMem hIdle s hs
    have hNe : call ≠ .reset := fun hEq =>
      hNoReset (hEq ▸ hMem)
    rw [stack_after_idle hIdle hNe]
    exact hs

/-
  A call is matched by the return that first brings the depth
  back: until then the frames of the caller and the address
  behind the call are the oldest ones after every cycle, and
  that return goes to this address and leaves the frames of
  the caller.
-/
theorem call_matched_by_return
    {m : Machine}
    {target : Target}
    (hMode : m.mode = .running)
    (hCall : m.current = .call target)
    (hRoom : m.stack.depth < 16)
    {calls : List HostCall}
    (hNoReset : HostCall.reset ∉ calls) :
    ((∀ s ∈ m.cycle.machine.starts calls,
        m.stack.depth + 1 ≤ s.cycle.machine.stack.depth) →
      (∀ s ∈ m.cycle.machine.starts calls,
        s.cycle.machine.stack.frames.take
            (m.stack.depth + 1) =
          m.stack.frames ++ [m.pc + 2]) ∧
      (m.cycle.machine.run calls).stack.frames.take
          (m.stack.depth + 1) =
        m.stack.frames ++ [m.pc + 2]) ∧
    ∀ earlier s later,
      m.cycle.machine.starts calls =
          earlier ++ s :: later →
      (∀ e ∈ earlier,
        m.stack.depth + 1 ≤ e.cycle.machine.stack.depth) →
      s.cycle.machine.stack.depth ≤ m.stack.depth →
      s.mode = .running ∧
        s.fetched = 0x00EE ∧
        s.cycle.result = some .ret ∧
        s.cycle.machine.pc = m.pc + 2 ∧
        s.cycle.machine.stack.frames = m.stack.frames := by
  have hEntered := frames_call hMode hCall hRoom
  have hLength :
      (m.stack.frames ++ [m.pc + 2]).length =
        m.stack.depth + 1 := by
    simp
  have hStart :
      m.stack.frames ++ [m.pc + 2] <+:
        m.cycle.machine.stack.frames := by
    exact hEntered ▸ List.prefix_rfl
  have hRun := bottom_frames_run hStart hNoReset
  rw [hLength] at hRun
  constructor
  · intro hDeep
    constructor
    · intro s hs
      have hBottom := hRun.1.at_mem hDeep hs
      have hAfter :=
        bottom_frames_cycle hBottom
          (by rw [hLength]; exact hDeep s hs)
      rw [List.prefix_iff_eq_take, hLength] at hAfter
      exact hAfter.symm
    · have hEnd := hRun.2 hDeep
      rw [List.prefix_iff_eq_take, hLength] at hEnd
      exact hEnd.symm
  · intro earlier s later hStarts hEarlier hShallow
    rw [hStarts] at hRun
    have hBottom := hRun.1.at_split hEarlier
    rcases return_of_bottom_frames hBottom
        (by simpa using hShallow) with
      ⟨hRunning, hRet, hResult, hPc, hFrames⟩
    exact
      ⟨hRunning, hasForm_of_current hRet, hResult, hPc,
        hFrames⟩

/-
  A machine about to call 0x004, where a call of 0x008 is
  followed by a return; another return stands at 0x008.
-/
def nestedCalls : Machine :=
  { initial {} (.ofSeed 7) with
    memory :=
      Memory.blank.write 0
        [0x20, 0x04, 0x00, 0x00, 0x20, 0x08, 0x00, 0xEE,
          0x00, 0xEE]
    pc := 0 }

/- The outer call is matched by the second return. -/
theorem nestedCalls_matched :
    nestedCalls.mode = .running ∧
      nestedCalls.stack.depth < 16 ∧
      ∃ s,
        nestedCalls.cycle.machine.starts
            [.cycle, .setKey 3 true, .cycle, .cycle] =
          [nestedCalls.cycle.machine,
            (nestedCalls.cycle.machine.cycle.machine.setKey
              3 true).machine, s] ∧
        s.fetched = 0x00EE ∧
        s.cycle.machine.pc = 0x002 ∧
        s.cycle.machine.stack.frames = [] := by
  have hRoom : nestedCalls.stack.depth < 16 := by
    decide +kernel
  have hCall :
      nestedCalls.current =
        .call nestedCalls.fetched.target := by
    decide +kernel
  have hNoReset :
      HostCall.reset ∉
        [.cycle, .setKey 3 true, .cycle, .cycle] := by
    simp
  have hMatched :=
    (call_matched_by_return rfl hCall hRoom hNoReset).2
      [nestedCalls.cycle.machine,
        (nestedCalls.cycle.machine.cycle.machine.setKey
          3 true).machine]
      _ [] rfl (by decide +kernel) (by decide +kernel)
  have hPc : nestedCalls.pc + 2 = 0x002 := by
    decide +kernel
  rcases hMatched with ⟨_, hWord, _, hBehind, hFrames⟩
  exact
    ⟨rfl, hRoom, _, rfl, hWord, hBehind.trans hPc, hFrames⟩

end Machine

end Chip8
