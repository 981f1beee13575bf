import Chip8.Proofs.Footprint
import Chip8.Proofs.HostRun

/-
  This file shows that the timers follow the time that elapses
  and not the instructions that run.  As long as no word sets
  a timer, the clock is what the elapsed times make of it.

  Key definitions include:
    * `Word.SetsTimer`, `Machine.LeavesTimers`
    * `HostCall.delta?`
    * `TimerClock.advances`
    * `Machine.clocks`

  The main statements are:
    * `Machine.clocks_eq_advances`
    * `Machine.clocks_follow_time`
-/

------------------------------------------------------------
-- Clocks
------------------------------------------------------------

namespace Chip8

/- Whether a word sets a timer. -/
def Word.SetsTimer (w : Word) : Prop :=
  w.IsDevice 0x15 ∨ w.IsDevice 0x18

instance (w : Word) : Decidable w.SetsTimer :=
  inferInstanceAs (Decidable (_ ∨ _))

/- The milliseconds that a call lets elapse. -/
def HostCall.delta? : HostCall → Option Float
| .step delta => some delta
| _ => none

/- The clock after each time of a list has elapsed. -/
def TimerClock.advances
    (clock : TimerClock) : List Float → List TimerClock
| [] => []
| delta :: deltas =>
    (clock.advance delta).1 ::
      (clock.advance delta).1.advances deltas

theorem TimerClock.eq_of_parts
    {clock other : TimerClock}
    (hDelay : clock.delay = other.delay)
    (hSound : clock.sound = other.sound)
    (hPending : clock.pending = other.pending) :
    clock = other := by
  cases clock
  cases other
  simp_all

namespace Machine

/- The clock of the machine after each step of a run. -/
def clocks (m : Machine) : List HostCall → List TimerClock
| [] => []
| .step delta :: calls =>
    (m.after (.step delta)).clock ::
      (m.after (.step delta)).clocks calls
| call :: calls => (m.after call).clocks calls

/- Whether a cycle that begins here carries out no word that
  sets a timer. -/
def LeavesTimers (m : Machine) : Prop :=
  m.mode = .running → ¬ m.fetched.SetsTimer

instance (m : Machine) : Decidable m.LeavesTimers :=
  inferInstanceAs (Decidable (_ → _))

variable {m n : Machine}

------------------------------------------------------------
-- Cycles
------------------------------------------------------------

theorem clock_cycle (hLeaves : m.LeavesTimers) :
    m.cycle.machine.clock = m.clock := by
  cases hMode : m.mode with
  | running =>
      have hUnset := hLeaves hMode
      have hFootprint := m.dispatch_footprint
      rw [cycle_running hMode]
      have hDelay :
          m.dispatch.machine.clock.delay = m.clock.delay := by
        rcases hFootprint.delay with hKept | hSets
        · exact hKept
        · exact absurd (Or.inl hSets) hUnset
      have hSound :
          m.dispatch.machine.clock.sound = m.clock.sound := by
        rcases hFootprint.sound with hKept | hSets
        · exact hKept
        · exact absurd (Or.inr hSets) hUnset
      exact
        TimerClock.eq_of_parts hDelay hSound
          hFootprint.pending
  | awaitingKey r =>
      rw [cycle_awaiting hMode, (m.resume_footprint r).rest]

theorem clock_cycles
    {count : Nat}
    (hLeaves :
      ∀ s ∈ m.cycleStarts count, s.LeavesTimers) :
    (m.cycles count).machine.clock = m.clock := by
  have hCycles :=
    guarded_cycles
      (P := fun s => s.clock = m.clock)
      (Q := LeavesTimers)
      (fun s hClock hLeaves =>
        (clock_cycle hLeaves).trans hClock)
      m rfl count
  exact hCycles.2 hLeaves

------------------------------------------------------------
-- Runs
------------------------------------------------------------

/- A step lets its time elapse on the clock that it finds. -/
theorem clock_after_step
    {delta : Float}
    (hLeaves :
      ∀ s ∈ m.callStarts (.step delta), s.LeavesTimers) :
    (m.after (.step delta)).clock =
      (m.clock.advance delta).1 := by
  have hClock := clock_cycles hLeaves
  rw [after_step, ← hClock]
  rfl

/- Between steps nothing but a reset touches the clock. -/
theorem clock_after
    {call : HostCall}
    (hNoStep : call.delta? = none)
    (hNoReset : call ≠ .reset)
    (hLeaves : ∀ s ∈ m.callStarts call, s.LeavesTimers) :
    (m.after call).clock = m.clock := by
  cases call with
  | load program =>
      simp only [after, load]
      split <;> rfl
  | reset => exact absurd rfl hNoReset
  | setKey index down => rfl
  | cycle =>
      exact clock_cycle (hLeaves m (List.mem_singleton_self m))
  | step delta => cases hNoStep

/-
  In a run without a reset whose words set no timer, the clock
  after each step depends on the elapsed times only.
-/
theorem clocks_eq_advances
    {calls : List HostCall}
    (hNoReset : HostCall.reset ∉ calls)
    (hLeaves : ∀ s ∈ m.starts calls, s.LeavesTimers) :
    m.clocks calls =
      m.clock.advances (calls.filterMap HostCall.delta?) := by
  induction calls generalizing m with
  | nil => rfl
  | cons call calls ih =>
      rcases List.forall_mem_append.mp hLeaves with
        ⟨hCall, hRest⟩
      have hLater : HostCall.reset ∉ calls := by
        intro hMem
        exact hNoReset (List.mem_cons_of_mem call hMem)
      have hClocks := ih hLater hRest
      cases call with
      | step delta =>
          rw [clock_after_step hCall] at hClocks
          simp only [clocks, clock_after_step hCall, hClocks]
          rfl
      | load program | reset | setKey index down | cycle =>
          have hNe := List.ne_of_not_mem_cons hNoReset
          rw [clock_after rfl hNe.symm hCall] at hClocks
          exact hClocks

/-
  Two machines with equal clocks have equal clocks after each
  step if the same times elapse, whatever programs, registers
  and keys they have and whatever else is called for between
  the steps, as long as neither is reset or carries out a word
  that sets a timer.
-/
theorem clocks_follow_time
    (hClock : m.clock = n.clock)
    {calls others : List HostCall}
    (hDeltas :
      calls.filterMap HostCall.delta? =
        others.filterMap HostCall.delta?)
    (hNoReset : HostCall.reset ∉ calls)
    (hOtherNoReset : HostCall.reset ∉ others)
    (hLeaves : ∀ s ∈ m.starts calls, s.LeavesTimers)
    (hOtherLeaves : ∀ s ∈ n.starts others, s.LeavesTimers) :
    m.clocks calls = n.clocks others := by
  rw [clocks_eq_advances hNoReset hLeaves,
    clocks_eq_advances hOtherNoReset hOtherLeaves,
    hClock, hDeltas]

/- A machine that runs two words of a loop in each step. -/
def looping : Machine :=
  { initial ⟨2⟩ (.ofSeed 7) with
    memory := Memory.blank.write 0 [0x61, 0x01, 0x10, 0x00]
    pc := 0
    clock := ⟨5, 3, 0⟩ }

/- A machine that waits for a key, with the same clock. -/
def waiting : Machine :=
  { initial ⟨1⟩ (.ofSeed 8) with
    memory := Memory.blank
    clock := ⟨5, 3, 0⟩
    mode := .awaitingKey Nibble.least }

/- Twenty milliseconds. -/
def pause : Float :=
  .ofBits 0x4034000000000000

/- Twice twenty milliseconds are two ticks for either. -/
theorem looping_waiting_clocks :
    looping.clocks [.step pause, .cycle, .step pause] =
        waiting.clocks
          [.setKey 3 true, .step pause, .load [0x00, 0xE0],
            .step pause] ∧
      (looping.clocks [.step pause, .cycle, .step pause]).map
          (fun clock => (clock.delay, clock.sound)) =
        [(4, 2), (3, 1)] := by
  have hClock : looping.clock = waiting.clock := rfl
  constructor
  · apply clocks_follow_time hClock
    · rfl
    · simp
    · simp
    · decide +kernel
    · decide +kernel
  · decide +kernel

end Machine

end Chip8
