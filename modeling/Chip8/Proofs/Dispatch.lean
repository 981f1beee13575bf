import Chip8.Machine.Host

/-
  This file takes a cycle of the machine apart: where a flow
  leads, what returns, calls and key waits do, and which
  instruction can make the machine wait.

  Key definitions include:
    * `Flow.destination`

  A cycle is taken apart by:
    * `Machine.follow_eq`
    * `Machine.executeReturn_cases`
    * `Machine.executeCall_cases`
    * `Machine.executeAwaitKey_cases`
    * `Machine.execute_wait`
-/

------------------------------------------------------------
-- Flows
------------------------------------------------------------

namespace Chip8

/- The address that a flow leads to. -/
def Flow.destination
    (pc : UInt16) : Flow → UInt16
| .next => pc + 2
| .skip => pc + 4
| .goto a => a
| .wait => pc

theorem Flow.skipIf_ne_wait (condition : Bool) :
    Flow.skipIf condition ≠ .wait := by
  cases condition <;> simp [skipIf]

namespace Machine

/- Following a flow moves the program counter only. -/
theorem follow_eq
    (m : Machine)
    (flow : Flow) :
    m.follow flow = { m with pc := flow.destination m.pc } := by
  cases flow <;> rfl

------------------------------------------------------------
-- Returns, Calls and Key Waits
------------------------------------------------------------

/-
  A return finds the call stack empty and is passed over, or
  it takes the newest frame off and goes there.
-/
theorem executeReturn_cases (m : Machine) :
    (m.stack.depth = 0 ∧
      m.executeReturn =
        ⟨m, .next, [.returnSkipped (.stackUnderflow m.pc)]⟩) ∨
    ∃ a popped,
      m.stack.pop m.pc = .ok (a, popped) ∧
      m.executeReturn =
        .quiet { m with stack := popped } (.goto a) := by
  by_cases hDepth : m.stack.depth = 0
  · apply Or.inl
    refine ⟨hDepth, ?_⟩
    simp [executeReturn, CallStack.pop_empty hDepth]
  · apply Or.inr
    cases hPop : m.stack.pop m.pc with
    | error fault =>
        simp [CallStack.pop, hDepth] at hPop
    | ok taken =>
        exact
          ⟨taken.1, taken.2, rfl, by
            simp [executeReturn, hPop]⟩

/-
  A call finds the call stack full and is passed over, or it
  puts the following address on it and goes to the target.
-/
theorem executeCall_cases
    (m : Machine)
    (target : Target) :
    (m.stack.depth = 16 ∧
      m.executeCall target =
        ⟨m, .next,
          [.callSkipped (.stackOverflow m.pc) target]⟩) ∨
    ∃ pushed,
      m.stack.push m.following m.pc = .ok pushed ∧
      m.executeCall target =
        .quiet { m with stack := pushed }
          (.goto target.toAddress) := by
  by_cases hDepth : m.stack.depth = 16
  · apply Or.inl
    refine ⟨hDepth, ?_⟩
    simp [executeCall, CallStack.push_full hDepth]
  · apply Or.inr
    have hRoom : m.stack.depth < 16 := by
      have := m.stack.depth_le
      omega
    cases hPush : m.stack.push m.following m.pc with
    | error fault =>
        simp [CallStack.push, hRoom] at hPush
    | ok pushed =>
        exact
          ⟨pushed, rfl, by
            simp [executeCall, hPush]⟩

/- A key wait takes the lowest held key or parks. -/
theorem executeAwaitKey_cases
    (m : Machine)
    (x : Register) :
    (∃ key,
      m.keypad.firstHeld = some key ∧
      m.executeAwaitKey x =
        .next (m.setRegister x key.toByte)) ∨
    (m.keypad.firstHeld = none ∧
      m.executeAwaitKey x =
        .quiet { m with mode := .awaitingKey x } .wait) := by
  cases hKey : m.keypad.firstHeld with
  | none =>
      apply Or.inr
      exact ⟨rfl, by simp [executeAwaitKey, hKey]⟩
  | some key =>
      apply Or.inl
      exact ⟨key, rfl, by simp [executeAwaitKey, hKey]⟩

/- A return has no part outside the call stack. -/
theorem executeReturn_frame (m : Machine) :
    m.executeReturn.machine =
      { m with stack := m.executeReturn.machine.stack } := by
  rcases m.executeReturn_cases with
    ⟨_, hEq⟩ | ⟨a, popped, _, hEq⟩
  · simp [hEq]
  · simp [hEq]

/- A call has no part outside the call stack. -/
theorem executeCall_frame
    (m : Machine)
    (target : Target) :
    (m.executeCall target).machine =
      { m with
        stack := (m.executeCall target).machine.stack } := by
  rcases m.executeCall_cases target with
    ⟨_, hEq⟩ | ⟨pushed, _, hEq⟩
  · simp [hEq]
  · simp [hEq]

/- A key wait has no part outside registers and mode. -/
theorem executeAwaitKey_frame
    (m : Machine)
    (x : Register) :
    (m.executeAwaitKey x).machine =
      { m with
        registers := (m.executeAwaitKey x).machine.registers
        mode := (m.executeAwaitKey x).machine.mode } := by
  rcases m.executeAwaitKey_cases x with
    ⟨key, _, hEq⟩ | ⟨_, hEq⟩
  · simp [hEq, setRegister]
  · simp [hEq]

/- Only a key wait without a held key makes the machine wait. -/
theorem execute_wait
    {m : Machine}
    {instruction : Instruction}
    (hWait : (m.execute instruction).result = .wait) :
    ∃ x,
      instruction = .awaitKey x ∧
      m.keypad.firstHeld = none := by
  cases instruction with
  | ret =>
      rcases m.executeReturn_cases with
        ⟨_, hEq⟩ | ⟨a, popped, _, hEq⟩
      · simp [execute, hEq] at hWait
      · simp [execute, hEq] at hWait
  | call target =>
      rcases m.executeCall_cases target with
        ⟨_, hEq⟩ | ⟨pushed, _, hEq⟩
      · simp [execute, hEq] at hWait
      · simp [execute, hEq] at hWait
  | skipIf condition =>
      exact absurd hWait (Flow.skipIf_ne_wait _)
  | awaitKey x =>
      rcases m.executeAwaitKey_cases x with
        ⟨key, _, hEq⟩ | ⟨hNone, _⟩
      · simp [execute, hEq] at hWait
      · exact ⟨x, rfl, hNone⟩
  | _ => simp [execute] at hWait

------------------------------------------------------------
-- Cycles
------------------------------------------------------------

theorem cycle_running
    {m : Machine}
    (hMode : m.mode = .running) :
    m.cycle = m.dispatch := by
  simp [cycle, hMode]

theorem cycle_awaiting
    {m : Machine}
    {r : Register}
    (hMode : m.mode = .awaitingKey r) :
    m.cycle = m.resume r := by
  simp [cycle, hMode]

/- A dispatch leaves the machine as its instruction does. -/
theorem machine_dispatch (m : Machine) :
    m.dispatch.machine =
      { (m.execute m.current).machine with
        pc :=
          (m.execute m.current).result.destination
            (m.execute m.current).machine.pc } := by
  simp [dispatch, follow_eq]

/- A running machine is left as its instruction leaves it. -/
theorem machine_cycle
    {m : Machine}
    {instruction : Instruction}
    (hMode : m.mode = .running)
    (hCurrent : m.current = instruction) :
    m.cycle.machine =
      { (m.execute instruction).machine with
        pc :=
          (m.execute instruction).result.destination
            (m.execute instruction).machine.pc } := by
  rw [cycle_running hMode, machine_dispatch, hCurrent]

/- The two ends of a cycle that finds the machine parked. -/
theorem resume_cases
    (m : Machine)
    (r : Register) :
    (m.keypad.firstHeld = none ∧
      m.resume r = .quiet m none) ∨
    ∃ key,
      m.keypad.firstHeld = some key ∧
      m.resume r =
        { machine :=
            { m with
              registers := m.registers.set r key.toByte
              pc := m.pc + 2
              mode := .running }
          result := some (.awaitKey r)
          notices := [.keyReleasedWait key r] } := by
  cases hKey : m.keypad.firstHeld with
  | none =>
      apply Or.inl
      exact ⟨rfl, by simp [resume, hKey]⟩
  | some key =>
      apply Or.inr
      refine ⟨key, rfl, ?_⟩
      simp [resume, hKey, advance, setRegister, following]

end Machine

end Chip8
