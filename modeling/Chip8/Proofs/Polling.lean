import Chip8.Proofs.Footprint
import Chip8.Proofs.HostRun

/-
  This file defines a machine without a mode, which polls: it
  carries out the word at its program counter in every cycle,
  and changes nothing in a key wait while no key is held.  No
  host can tell it from the machine that parks.

  Key definitions include:
    * `Poller`
    * `Poller.cycle`, `Poller.history`
    * `Machine.polled`
    * `Machine.ParksAtWait`

  The main statement is:
    * `Machine.history_polled`
-/

------------------------------------------------------------
-- Polling Machine
------------------------------------------------------------

namespace Chip8

/- The state of a machine that never parks. -/
structure Poller where
  registers : Registers
  memory : Memory
  pc : UInt16
  index : UInt16
  stack : CallStack
  screen : Screen
  keypad : Keypad
  clock : TimerClock
  random : RandomSource
  config : Config

/- The machine without its mode. -/
def Machine.polled (m : Machine) : Poller where
  registers := m.registers
  memory := m.memory
  pc := m.pc
  index := m.index
  stack := m.stack
  screen := m.screen
  keypad := m.keypad
  clock := m.clock
  random := m.random
  config := m.config

namespace Poller

/- A new polling machine. -/
def initial
    (config : Config)
    (random : RandomSource) : Poller where
  registers := .zero
  memory := .initial
  pc := Memory.programStart
  index := 0
  stack := .empty
  screen := .blank
  keypad := .released
  clock := .zero
  random := random
  config := config

/- The running machine with the same state. -/
def running (p : Poller) : Machine where
  registers := p.registers
  memory := p.memory
  pc := p.pc
  index := p.index
  stack := p.stack
  screen := p.screen
  keypad := p.keypad
  clock := p.clock
  random := p.random
  mode := .running
  config := p.config

/- The instruction that the program counter points at. -/
def current (p : Poller) : Instruction :=
  .decode (p.memory.fetch p.pc)

/-
  Fetch, decode and execute.  A key wait without a held key
  changes nothing and completes nothing.
-/
def cycle (p : Poller) : Poller × Option Instruction :=
  match p.current with
  | .awaitKey x =>
      match p.keypad.firstHeld with
      | none => (p, none)
      | some key =>
          ({ p with
              registers := p.registers.set x key.toByte
              pc := p.pc + 2 },
            some (.awaitKey x))
  | instruction =>
      let effect := p.running.execute instruction
      ((effect.machine.follow effect.result).polled,
        some instruction)

/- Several cycles, with all their results. -/
def cycles
    (p : Poller) : Nat → Poller × List (Option Instruction)
| 0 => (p, [])
| count + 1 =>
    let first := p.cycle
    let rest := first.1.cycles count
    (rest.1, first.2 :: rest.2)

/- The cycles that one step of the host runs. -/
def batch (p : Poller) : Nat :=
  p.config.cyclesPerStep.toNat

/- Let milliseconds elapse on the timers. -/
def elapse
    (p : Poller)
    (delta : Float) : Poller :=
  { p with clock := (p.clock.advance delta).1 }

/- The polling machine after a call. -/
def after (p : Poller) : HostCall → Poller
| .load program =>
    if program.length ≤ Memory.programLimit then
      { p with
        memory := p.memory.write Memory.programStart program
        pc := Memory.programStart }
    else
      p
| .reset => initial p.config p.random
| .setKey index down =>
    { p with keypad := (p.keypad.set index down).1 }
| .cycle => p.cycle.1
| .step delta => (p.cycles p.batch).1.elapse delta

/- What the host gets back from a call. -/
def answer (p : Poller) : HostCall → Answer
| .load program =>
    .loaded
      (if program.length ≤ Memory.programLimit then
        .ok ()
      else
        .error
          (.programTooLarge program.length
            Memory.programLimit))
| .reset => .done
| .setKey .. => .done
| .cycle => .cycled [p.cycle.2]
| .step _ => .cycled (p.cycles p.batch).2

/- The polling machine after each call, with the answer. -/
def history
    (p : Poller) : List HostCall → List (Poller × Answer)
| [] => []
| call :: calls =>
    (p.after call, p.answer call) ::
      (p.after call).history calls

/- Every word but a key wait is simply carried out. -/
theorem cycle_of_ne_awaitKey
    {p : Poller}
    (hNe : ∀ x, p.current ≠ .awaitKey x) :
    p.cycle =
      (((p.running.execute p.current).machine.follow
          (p.running.execute p.current).result).polled,
        some p.current) := by
  unfold cycle
  split
  · rename_i x hCurrent
    exact absurd hCurrent (hNe x)
  · rfl

theorem cycle_awaitKey
    {p : Poller}
    {x : Register}
    (hCurrent : p.current = .awaitKey x) :
    p.cycle =
      match p.keypad.firstHeld with
      | none => (p, none)
      | some key =>
          ({ p with
              registers := p.registers.set x key.toByte
              pc := p.pc + 2 },
            some (.awaitKey x)) := by
  unfold cycle
  rw [hCurrent]

end Poller

------------------------------------------------------------
-- One Cycle
------------------------------------------------------------

namespace Machine

/-
  A machine that waits for a key stands at the key wait that
  it parked on.
-/
def ParksAtWait (m : Machine) : Prop :=
  ∀ r, m.mode = .awaitingKey r → m.current = .awaitKey r

theorem parksAtWait_of_running
    {m : Machine}
    (hMode : m.mode = .running) :
    m.ParksAtWait := by
  intro r hAwaiting
  rw [hMode] at hAwaiting
  cases hAwaiting

theorem running_polled
    {m : Machine}
    (hMode : m.mode = .running) :
    m.polled.running = m := by
  cases m
  simp_all [polled, Poller.running]

/-
  A running machine and the polling machine complete the same
  instruction and end alike.
-/
theorem dispatch_polled
    {m : Machine}
    (hMode : m.mode = .running) :
    m.polled.cycle =
      (m.dispatch.machine.polled, m.dispatch.result) := by
  by_cases hAwait : ∃ x, m.current = .awaitKey x
  · rcases hAwait with ⟨x, hCurrent⟩
    rw [Poller.cycle_awaitKey (p := m.polled) hCurrent]
    rcases m.executeAwaitKey_cases x with
      ⟨key, hKey, hEq⟩ | ⟨hNone, hEq⟩
    · simp [polled, hKey, dispatch, hCurrent, execute, hEq,
        follow, advance, following, setRegister]
    · simp [polled, hNone, dispatch, hCurrent, execute, hEq,
        follow]
  · have hNe : ∀ x, m.polled.current ≠ .awaitKey x :=
      fun x hCurrent => hAwait ⟨x, hCurrent⟩
    have hFlow : (m.execute m.current).result ≠ .wait := by
      intro hWait
      rcases execute_wait hWait with ⟨x, hCurrent, _⟩
      exact hAwait ⟨x, hCurrent⟩
    rw [Poller.cycle_of_ne_awaitKey hNe,
      running_polled hMode]
    have hCurrent : m.polled.current = m.current := rfl
    simp [dispatch, hCurrent, hFlow]

/-
  A machine that resumes at its key wait and the polling
  machine end alike.
-/
theorem resume_polled
    {m : Machine}
    {r : Register}
    (hCurrent : m.current = .awaitKey r) :
    m.polled.cycle =
      ((m.resume r).machine.polled,
        (m.resume r).result) := by
  rw [Poller.cycle_awaitKey (p := m.polled) hCurrent]
  rcases m.resume_cases r with
    ⟨hNone, hEq⟩ | ⟨key, hKey, hEq⟩
  · simp [polled, hNone, hEq]
  · simp [polled, hKey, hEq]

theorem cycle_polled
    {m : Machine}
    (hPark : m.ParksAtWait) :
    m.polled.cycle =
      (m.cycle.machine.polled, m.cycle.result) := by
  cases hMode : m.mode with
  | running =>
      rw [cycle_running hMode]
      exact dispatch_polled hMode
  | awaitingKey r =>
      rw [cycle_awaiting hMode]
      exact resume_polled (hPark r hMode)

/- A cycle leaves a machine that parks at a key wait so. -/
theorem parksAtWait_cycle
    {m : Machine}
    (hPark : m.ParksAtWait) :
    m.cycle.machine.ParksAtWait := by
  cases hMode : m.mode with
  | running =>
      rw [cycle_running hMode, machine_dispatch]
      rcases m.mode_execute m.current with
        hKept | ⟨x, hCurrent, _, hEq⟩
      · exact parksAtWait_of_running (hKept.trans hMode)
      · intro r hAwaiting
        rw [hEq] at hAwaiting ⊢
        cases hAwaiting
        exact hCurrent
  | awaitingKey r =>
      rw [cycle_awaiting hMode]
      rcases m.resume_cases r with
        ⟨_, hEq⟩ | ⟨key, _, hEq⟩
      · rw [hEq]
        exact hPark
      · rw [hEq]
        exact parksAtWait_of_running rfl

------------------------------------------------------------
-- Whole Runs
------------------------------------------------------------

theorem cycles_polled
    {m : Machine}
    (hPark : m.ParksAtWait)
    (count : Nat) :
    m.polled.cycles count =
        ((m.cycles count).machine.polled,
          (m.cycles count).result) ∧
      (m.cycles count).machine.ParksAtWait := by
  induction count generalizing m with
  | zero => exact ⟨rfl, hPark⟩
  | succ count ih =>
      rcases ih (parksAtWait_cycle hPark) with
        ⟨hRest, hAfter⟩
      refine ⟨?_, hAfter⟩
      simp only [Poller.cycles, cycle_polled hPark, hRest]
      rfl

theorem parksAtWait_clock
    {m : Machine}
    (hPark : m.ParksAtWait)
    (clock : TimerClock) :
    { m with clock := clock }.ParksAtWait := by
  intro r hMode
  exact hPark r hMode

theorem polled_elapse
    (m : Machine)
    (delta : Float) :
    (m.elapse delta).polled = m.polled.elapse delta :=
  rfl

/-
  A call keeps a machine at its key wait, and the polling
  machine answers it alike and ends alike.
-/
theorem after_polled
    {m : Machine}
    (hPark : m.ParksAtWait)
    (call : HostCall) :
    m.polled.after call = (m.after call).polled ∧
      m.polled.answer call = m.answer call ∧
      (m.after call).ParksAtWait := by
  cases call with
  | load program =>
      by_cases hFits :
          program.length ≤ Memory.programLimit
      · have hLoad :
            m.load program =
              ⟨{ m.install program with mode := .running },
                .ok (), [.programLoaded program.length]⟩ := by
          simp only [load, if_pos hFits]
        simp only [Poller.after, Poller.answer, after, answer,
          if_pos hFits, hLoad]
        refine ⟨?_, trivial, parksAtWait_of_running rfl⟩
        simp only [polled, install, write, jumpTo]
      · have hLoad :
            m.load program =
              .quiet m
                (.error
                  (.programTooLarge program.length
                    Memory.programLimit)) := by
          simp only [load, if_neg hFits]
        simp only [Poller.after, Poller.answer, after, answer,
          if_neg hFits, hLoad, Outcome.quiet]
        exact ⟨trivial, trivial, hPark⟩
  | reset =>
      refine ⟨?_, rfl, parksAtWait_of_running rfl⟩
      simp only [Poller.after, after, reset,
        cleared_eq_initial]
      rfl
  | setKey index down =>
      exact ⟨rfl, rfl, hPark⟩
  | cycle =>
      refine ⟨?_, ?_, parksAtWait_cycle hPark⟩
      · simp only [Poller.after, cycle_polled hPark]
        rfl
      · simp only [Poller.answer, cycle_polled hPark]
        rfl
  | step delta =>
      rcases cycles_polled hPark m.batch with
        ⟨hBatch, hAfter⟩
      have hCount : m.polled.batch = m.batch := rfl
      rw [after_step, polled_elapse]
      refine ⟨?_, ?_, parksAtWait_clock hAfter _⟩
      · simp only [Poller.after, hCount, hBatch]
      · simp only [Poller.answer, hCount, hBatch, answer]

theorem history_polled_of_parksAtWait
    {m : Machine}
    (hPark : m.ParksAtWait)
    (calls : List HostCall) :
    m.polled.history calls =
        (m.history calls).map
          (fun entry => (entry.1.polled, entry.2)) ∧
      ∀ entry ∈ m.history calls, entry.1.ParksAtWait := by
  induction calls generalizing m with
  | nil => exact ⟨rfl, by simp [history]⟩
  | cons call calls ih =>
      rcases after_polled hPark call with
        ⟨hAfter, hAnswer, hNext⟩
      rcases ih hNext with ⟨hRest, hAll⟩
      constructor
      · simp only [Poller.history, history, List.map_cons]
        rw [hAfter, hAnswer, hRest]
      · exact List.forall_mem_cons.mpr ⟨hNext, hAll⟩

/-
  On a new machine no sequence of calls tells parking from
  polling: after every call all parts but the mode agree, and
  so do the results of all cycles.  A machine that waits for
  a key stands at the key wait of the awaited register.
-/
theorem history_polled
    (config : Config)
    (random : RandomSource)
    (calls : List HostCall) :
    (Poller.initial config random).history calls =
        ((initial config random).history calls).map
          (fun entry => (entry.1.polled, entry.2)) ∧
      ∀ entry ∈ (initial config random).history calls,
        ∀ r, entry.1.mode = .awaitingKey r →
          entry.1.current = .awaitKey r :=
  history_polled_of_parksAtWait
    (m := initial config random)
    (parksAtWait_of_running rfl) calls

end Machine

end Chip8
