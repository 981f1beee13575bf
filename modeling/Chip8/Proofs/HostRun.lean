import Chip8.Machine.Host

/-
  This file defines runs: what the host can call for, what it
  gets back, and at which machines the cycles of a run begin.

  Key definitions include:
    * `HostCall`, `Answer`
    * `Machine.after`, `Machine.answer`
    * `Machine.run`, `Machine.history`, `Machine.results`
    * `Machine.starts`

  Invariants are carried through a run by:
    * `Machine.guarded_run`
-/

------------------------------------------------------------
-- Calls of the Host
------------------------------------------------------------

namespace Chip8

/- What the host can call for. -/
inductive HostCall where
  /- Install a program and start it. -/
  | load (program : List UInt8)
  /- Bring the machine back to its beginning. -/
  | reset
  /- Tell that a key went down or up. -/
  | setKey (index : Nat) (down : Bool)
  /- Run one cycle. -/
  | cycle
  /- Run a batch of cycles and let milliseconds elapse. -/
  | step (delta : Float)

/- A call that runs no cycle. -/
def HostCall.Idle : HostCall → Prop
| .load _ | .reset | .setKey .. => True
| .cycle | .step _ => False

/- A call that lets the program in memory go on. -/
def HostCall.Continues : HostCall → Prop
| .load _ | .reset => False
| .setKey .. | .cycle | .step _ => True

/- What the host gets back from a call. -/
inductive Answer where
  /- Nothing but that the call is over. -/
  | done
  /- How the installation of a program ended. -/
  | loaded (result : Except Fault Unit)
  /- The results of the cycles that were run, in order. -/
  | cycled (results : List (Option Instruction))

/- The results of the cycles that an answer tells, in order. -/
def Answer.results : Answer → List (Option Instruction)
| .done | .loaded _ => []
| .cycled results => results

namespace Machine

/- Let milliseconds elapse on the timers. -/
def elapse
    (m : Machine)
    (delta : Float) : Machine :=
  { m with clock := (m.clock.advance delta).1 }

/- The cycles that one step of the host runs. -/
def batch (m : Machine) : Nat :=
  m.config.cyclesPerStep.toNat

/- The machine after a call. -/
def after (m : Machine) : HostCall → Machine
| .load program => (m.load program).machine
| .reset => m.reset.machine
| .setKey index down => (m.setKey index down).machine
| .cycle => m.cycle.machine
| .step delta => (m.step delta).machine

/- What the host gets back from a call. -/
def answer (m : Machine) : HostCall → Answer
| .load program => .loaded (m.load program).result
| .reset => .done
| .setKey .. => .done
| .cycle => .cycled [m.cycle.result]
| .step _ => .cycled (m.cycles m.batch).result

/- The machine after a list of calls. -/
def run (m : Machine) : List HostCall → Machine
| [] => m
| call :: calls => (m.after call).run calls

/- The machine after each call of a list, with the answer. -/
def history
    (m : Machine) : List HostCall → List (Machine × Answer)
| [] => []
| call :: calls =>
    (m.after call, m.answer call) ::
      (m.after call).history calls

/- The results of all cycles of a run, in order. -/
def results
    (m : Machine) : List HostCall → List (Option Instruction)
| [] => []
| call :: calls =>
    (m.answer call).results ++ (m.after call).results calls

theorem after_step
    (m : Machine)
    (delta : Float) :
    m.after (.step delta) =
      (m.cycles m.batch).machine.elapse delta :=
  rfl

/- Elapsing time changes nothing but the clock. -/
theorem elapse_keeps
    (m : Machine)
    (delta : Float) :
    ∃ clock, m.elapse delta = { m with clock := clock } :=
  ⟨_, rfl⟩

------------------------------------------------------------
-- Beginnings of Cycles
------------------------------------------------------------

/- The machines at which several cycles begin. -/
def cycleStarts (m : Machine) : Nat → List Machine
| 0 => []
| count + 1 => m :: m.cycle.machine.cycleStarts count

/- The machines at which the cycles of a call begin. -/
def callStarts (m : Machine) : HostCall → List Machine
| .cycle => [m]
| .step _ => m.cycleStarts m.batch
| _ => []

/- The machines at which the cycles of a run begin. -/
def starts (m : Machine) : List HostCall → List Machine
| [] => []
| call :: calls =>
    m.callStarts call ++ (m.after call).starts calls

end Machine

------------------------------------------------------------
-- Guarded Invariants
------------------------------------------------------------

/-
  Whether `P` holds at each machine of a list up to the first
  one at which the guard `Q` fails.
-/
def HoldsUntil
    (P Q : Machine → Prop) : List Machine → Prop
| [] => True
| s :: rest => P s ∧ (Q s → HoldsUntil P Q rest)

theorem HoldsUntil.append
    {P Q : Machine → Prop}
    {first second : List Machine}
    (hFirst : HoldsUntil P Q first)
    (hSecond :
      (∀ s ∈ first, Q s) → HoldsUntil P Q second) :
    HoldsUntil P Q (first ++ second) := by
  induction first with
  | nil => exact hSecond (by simp)
  | cons s first ih =>
      refine ⟨hFirst.1, fun hs => ih (hFirst.2 hs) ?_⟩
      intro hAll
      exact hSecond (List.forall_mem_cons.mpr ⟨hs, hAll⟩)

theorem HoldsUntil.at_split
    {P Q : Machine → Prop}
    {earlier later : List Machine}
    {s : Machine}
    (h : HoldsUntil P Q (earlier ++ s :: later))
    (hEarlier : ∀ e ∈ earlier, Q e) :
    P s := by
  induction earlier with
  | nil => exact h.1
  | cons e earlier ih =>
      rcases List.forall_mem_cons.mp hEarlier with
        ⟨he, hRest⟩
      exact ih (h.2 he) hRest

/- If the guard admits the whole list, `P` holds on all of it. -/
theorem HoldsUntil.at_mem
    {P Q : Machine → Prop}
    {list : List Machine}
    {s : Machine}
    (h : HoldsUntil P Q list)
    (hAll : ∀ e ∈ list, Q e)
    (hs : s ∈ list) :
    P s := by
  rcases List.append_of_mem hs with ⟨earlier, later, rfl⟩
  apply h.at_split
  intro e he
  exact hAll e (List.mem_append_left _ he)

namespace Machine

variable {P Q : Machine → Prop}

/- What a guarded cycle preserves, guarded cycles preserve. -/
theorem guarded_cycles
    (hCycle : ∀ s, P s → Q s → P s.cycle.machine)
    (m : Machine)
    (hm : P m)
    (count : Nat) :
    HoldsUntil P Q (m.cycleStarts count) ∧
      ((∀ s ∈ m.cycleStarts count, Q s) →
        P (m.cycles count).machine) := by
  induction count generalizing m with
  | zero => exact ⟨trivial, fun _ => hm⟩
  | succ count ih =>
      constructor
      · refine ⟨hm, fun hQ => ?_⟩
        exact (ih m.cycle.machine (hCycle m hm hQ)).1
      · intro hAll
        rcases List.forall_mem_cons.mp hAll with
          ⟨hQ, hRest⟩
        exact (ih m.cycle.machine (hCycle m hm hQ)).2 hRest

theorem guarded_call
    (hCycle : ∀ s, P s → Q s → P s.cycle.machine)
    (hClock :
      ∀ s clock, P s → P { s with clock := clock })
    (call : HostCall)
    (hIdle : call.Idle → ∀ s, P s → P (s.after call))
    (m : Machine)
    (hm : P m) :
    HoldsUntil P Q (m.callStarts call) ∧
      ((∀ s ∈ m.callStarts call, Q s) →
        P (m.after call)) := by
  cases call with
  | load program | reset | setKey index down =>
      exact ⟨trivial, fun _ => hIdle trivial m hm⟩
  | cycle =>
      exact guarded_cycles hCycle m hm 1
  | step delta =>
      have hBatch := guarded_cycles hCycle m hm m.batch
      refine ⟨hBatch.1, fun hAll => ?_⟩
      rw [after_step]
      exact hClock _ _ (hBatch.2 hAll)

/-
  A property that guarded cycles, a change of the clock and
  the idle calls of a run preserve holds where each cycle of
  the run begins, up to the first one that the guard does not
  admit.  If the guard admits all of them it holds at the end.
-/
theorem guarded_run
    (hCycle : ∀ s, P s → Q s → P s.cycle.machine)
    (hClock :
      ∀ s clock, P s → P { s with clock := clock })
    (calls : List HostCall)
    (hIdle :
      ∀ call ∈ calls, call.Idle →
        ∀ s, P s → P (s.after call))
    (m : Machine)
    (hm : P m) :
    HoldsUntil P Q (m.starts calls) ∧
      ((∀ s ∈ m.starts calls, Q s) → P (m.run calls)) := by
  induction calls generalizing m with
  | nil => exact ⟨trivial, fun _ => hm⟩
  | cons call calls ih =>
      rcases List.forall_mem_cons.mp hIdle with
        ⟨hFirst, hRest⟩
      have hCall :=
        guarded_call hCycle hClock call hFirst m hm
      constructor
      · apply hCall.1.append
        intro hAll
        exact (ih hRest _ (hCall.2 hAll)).1
      · intro hAll
        rcases List.forall_mem_append.mp hAll with
          ⟨hThis, hLater⟩
        exact (ih hRest _ (hCall.2 hThis)).2 hLater

end Machine

end Chip8
