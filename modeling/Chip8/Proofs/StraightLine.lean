import Chip8.Proofs.HostRun
import Chip8.Proofs.Loading

/-
  This file shows that a straight-line program runs as it is
  written: without words that branch, wait or store, the words
  of a loaded program are carried out in their order, one in
  each cycle, and the program stays in memory.

  Key definitions include:
    * `Instruction.isStraight`
    * `HostCall.cycleCount`, `HostCall.totalCycles`
    * `Machine.HoldsStraight`, `Machine.Reaches`

  The main statements are:
    * `Machine.reaches_cycle`
    * `Machine.reaches_run`
    * `Machine.straight_line_runs_as_written`
-/

------------------------------------------------------------
-- Counting Cycles
------------------------------------------------------------

namespace Chip8

/- The cycles that a call runs, given those of one step. -/
def HostCall.cycleCount
    (batch : Nat) : HostCall → Nat
| .load _ | .reset | .setKey .. => 0
| .cycle => 1
| .step _ => batch

/- The cycles that the calls of a list run. -/
def HostCall.totalCycles
    (batch : Nat) : List HostCall → Nat
| [] => 0
| call :: calls =>
    call.cycleCount batch + totalCycles batch calls

------------------------------------------------------------
-- Straight Instructions
------------------------------------------------------------

/- Whether an instruction neither branches, waits nor stores. -/
def Instruction.isStraight : Instruction → Bool
| .jump _ | .jumpOffset _ | .call _ | .ret => false
| .skipIf _ | .awaitKey _ => false
| .storeDecimal _ | .store _ => false
| _ => true

namespace Machine

/-
  A straight instruction goes on at the next one and leaves
  program counter, memory, call stack and mode alone.
-/
theorem execute_straight
    (m : Machine)
    {instruction : Instruction}
    (hStraight : instruction.isStraight = true) :
    (m.execute instruction).result = .next ∧
      (m.execute instruction).machine.pc = m.pc ∧
      (m.execute instruction).machine.memory = m.memory ∧
      (m.execute instruction).machine.stack = m.stack ∧
      (m.execute instruction).machine.mode = m.mode := by
  cases instruction with
  | jump target | jumpOffset target | call target | ret
  | skipIf condition | awaitKey x | storeDecimal x
  | store x => cases hStraight
  | _ => exact ⟨rfl, rfl, rfl, rfl, rfl⟩

------------------------------------------------------------
-- Progress of a Program
------------------------------------------------------------

variable {m s : Machine} {words : List Word}

/-
  Whether these words stand in memory from 0x200 on, and all
  of them are straight.
-/
structure HoldsStraight
    (m : Machine)
    (words : List Word) : Prop where
  image :
    m.memory.read 0x200 (2 * words.length) =
      Word.image words
  straight :
    ∀ w ∈ words, (Instruction.decode w).isStraight = true

/-
  Whether a machine has come to the word of this number behind
  0x200 and has kept memory, call stack and configuration.
-/
structure Reaches
    (m : Machine)
    (k : Nat)
    (s : Machine) : Prop where
  mode : s.mode = .running
  pc : s.pc = 0x200 + UInt16.ofNat (2 * k)
  memory : s.memory = m.memory
  stack : s.stack = m.stack
  config : s.config = m.config

theorem Reaches.withClock
    {k : Nat}
    (h : m.Reaches k s)
    (clock : TimerClock) :
    m.Reaches k { s with clock := clock } :=
  { h with }

/- The machine stands at the word that it has reached. -/
theorem Reaches.current
    {k : Nat}
    (h : m.Reaches k s)
    (hProgram : m.HoldsStraight words)
    (hk : k < words.length) :
    s.current = .decode words[k] := by
  have hFetched : s.fetched = words[k] := by
    unfold fetched
    rw [h.memory, h.pc]
    exact Memory.fetch_of_read_image hProgram.image hk
  unfold Machine.current
  rw [hFetched]

/- A cycle at a straight word completes it and goes on. -/
theorem reaches_cycle
    {k : Nat}
    (h : m.Reaches k s)
    (hStraight : s.current.isStraight = true) :
    s.cycle.result = some s.current ∧
      m.Reaches (k + 1) s.cycle.machine := by
  rcases s.execute_straight hStraight with
    ⟨hNext, hPc, hMemory, hStack, hMode⟩
  have hConfig := (s.host_execute s.current).2.1
  rw [cycle_running h.mode]
  constructor
  · simp [dispatch, hNext]
  · rw [machine_dispatch, hNext]
    refine
      { mode := hMode.trans h.mode
        pc := ?_
        memory := hMemory.trans h.memory
        stack := hStack.trans h.stack
        config := hConfig.trans h.config }
    simp only [Flow.destination]
    rw [hPc, h.pc, Nat.mul_succ, UInt16.ofNat_add,
      ← UInt16.add_assoc]
    rfl

------------------------------------------------------------
-- Runs
------------------------------------------------------------

/-
  As many cycles as there are words left complete these words
  in their order.
-/
theorem reaches_cycles
    (hProgram : m.HoldsStraight words)
    {k count : Nat}
    (hLeft : k + count ≤ words.length)
    (h : m.Reaches k s) :
    (s.cycles count).result =
        ((words.drop k).take count).map
          (fun w => some (.decode w)) ∧
      m.Reaches (k + count) (s.cycles count).machine := by
  induction count generalizing k s with
  | zero => exact ⟨rfl, h⟩
  | succ count ih =>
      have hk : k < words.length := by omega
      have hCurrent := h.current hProgram hk
      have hWord : s.current.isStraight = true := by
        rw [hCurrent]
        exact hProgram.straight _ (List.getElem_mem hk)
      rcases reaches_cycle h hWord with ⟨hResult, hNext⟩
      rcases ih (by omega) hNext with ⟨hResults, hLast⟩
      have hCount : k + 1 + count = k + (count + 1) := by
        omega
      rw [hCount] at hLast
      refine ⟨?_, hLast⟩
      rw [List.drop_eq_getElem_cons hk, List.take_succ_cons,
        List.map_cons, ← hResults, ← hCurrent, ← hResult]
      rfl

theorem reaches_call
    (hProgram : m.HoldsStraight words)
    {k : Nat}
    {call : HostCall}
    (hContinues : call.Continues)
    (hLeft : k + call.cycleCount m.batch ≤ words.length)
    (h : m.Reaches k s) :
    (s.answer call).results =
        ((words.drop k).take
            (call.cycleCount m.batch)).map
          (fun w => some (.decode w)) ∧
      m.Reaches (k + call.cycleCount m.batch)
        (s.after call) := by
  cases call with
  | load program | reset => exact hContinues.elim
  | setKey index down => exact ⟨rfl, { h with }⟩
  | cycle => exact reaches_cycles hProgram hLeft h
  | step delta =>
      have hBatch : s.batch = m.batch :=
        congrArg (·.cyclesPerStep.toNat) h.config
      rcases reaches_cycles hProgram hLeft h with
        ⟨hResults, hLast⟩
      rw [after_step, hBatch]
      refine ⟨?_, hLast.withClock _⟩
      simp only [answer, Answer.results, hBatch]
      exact hResults

/-
  A run that neither loads nor resets completes the words from
  the one that the machine has reached, one in each cycle.
-/
theorem reaches_run
    (hProgram : m.HoldsStraight words)
    {calls : List HostCall}
    (hContinues : ∀ call ∈ calls, call.Continues)
    {k n : Nat}
    (hCount : HostCall.totalCycles m.batch calls = n)
    (hLeft : k + n ≤ words.length)
    (h : m.Reaches k s) :
    s.results calls =
        ((words.drop k).take n).map
          (fun w => some (.decode w)) ∧
      m.Reaches (k + n) (s.run calls) := by
  induction calls generalizing k n s with
  | nil =>
      obtain rfl : 0 = n := hCount
      exact ⟨rfl, h⟩
  | cons call calls ih =>
      rcases List.forall_mem_cons.mp hContinues with
        ⟨hFirst, hRest⟩
      rw [HostCall.totalCycles] at hCount
      subst hCount
      rcases reaches_call hProgram hFirst (by omega) h with
        ⟨hResults, hReached⟩
      rcases ih hRest rfl (by omega) hReached with
        ⟨hLater, hLast⟩
      rw [Nat.add_assoc] at hLast
      refine ⟨?_, hLast⟩
      rw [results, hResults, hLater, List.take_add,
        List.map_append, List.drop_drop]

/-
  A program of words that neither branch, wait nor store is
  carried out as it is written, whatever machine it is loaded
  into and whatever keys and times the host tells meanwhile:
  as many cycles as it has words, or fewer, complete its first
  words in their order, and the program is still in memory.
-/
theorem straight_line_runs_as_written
    (m : Machine)
    {words : List Word}
    (hFits : words.length ≤ 1792)
    (hStraight :
      ∀ w ∈ words, (Instruction.decode w).isStraight = true)
    {calls : List HostCall}
    (hContinues : ∀ call ∈ calls, call.Continues)
    {n : Nat}
    (hCount : HostCall.totalCycles m.batch calls = n)
    (hEnough : n ≤ words.length) :
    let loaded := (m.load (Word.image words)).machine
    loaded.results calls =
        (words.take n).map (fun w => some (.decode w)) ∧
      (loaded.run calls).pc.toNat = 0x200 + 2 * n ∧
      (loaded.run calls).mode = .running ∧
      (loaded.run calls).stack = m.stack ∧
      (loaded.run calls).memory.read 0x200
          (2 * words.length) =
        Word.image words := by
  intro loaded
  have hLimit : 2 * words.length ≤ Memory.programLimit := by
    have hBytes : Memory.programLimit = 3584 := rfl
    omega
  have hLoaded := load_image m hLimit
  change loaded = _ at hLoaded
  have hProgram : loaded.HoldsStraight words :=
    ⟨read_load m hLimit, hStraight⟩
  have hStart : loaded.Reaches 0 loaded := by
    rw [hLoaded]
    exact ⟨rfl, rfl, rfl, rfl, rfl⟩
  have hBatch : loaded.batch = m.batch := by
    rw [hLoaded]
    rfl
  have hStack : loaded.stack = m.stack := by
    rw [hLoaded]
  rw [← hBatch] at hCount
  rcases reaches_run hProgram hContinues hCount (by omega)
      hStart with
    ⟨hResults, hLast⟩
  refine ⟨?_, ?_, hLast.mode, hLast.stack.trans hStack, ?_⟩
  · exact hResults
  · have hFirst : (0x200 : UInt16).toNat = 0x200 := rfl
    rw [hLast.pc, Nat.zero_add, UInt16.toNat_add, hFirst,
      UInt16.toNat_ofNat']
    omega
  · rw [hLast.memory]
    exact hProgram.image

/- Two loads around a word without a meaning. -/
def threeWords : List Word :=
  [0x60FF, 0x0123, 0x7002]

/- The word without a meaning is completed like the others. -/
theorem parked_runs_as_written :
    let loaded := (parked.load (Word.image threeWords)).machine
    let calls : List HostCall :=
      [.setKey 3 true, .cycle, .setKey 20 true, .cycle]
    loaded.results calls =
        [some (.setByte Nibble.least 0xFF),
          some (.unknown 0x0123)] ∧
      (loaded.run calls).pc.toNat = 0x204 := by
  intro loaded calls
  have hStraight :
      threeWords.all
          (fun w => (Instruction.decode w).isStraight) =
        true := by
    decide
  have hContinues : ∀ call ∈ calls, call.Continues := by
    simp [calls, HostCall.Continues]
  have hCount :
      HostCall.totalCycles parked.batch calls = 2 := by
    decide
  have hDecoded :
      (threeWords.take 2).map
          (fun w => some (Instruction.decode w)) =
        [some (.setByte Nibble.least 0xFF),
          some (.unknown 0x0123)] := by
    decide
  rcases straight_line_runs_as_written parked (by decide)
      (List.all_eq_true.mp hStraight) hContinues hCount
      (by decide) with
    ⟨hResults, hPc, _⟩
  exact ⟨hResults.trans hDecoded, hPc⟩

end Machine

end Chip8
