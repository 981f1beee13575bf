import Chip8.Proofs.Dispatch
import Chip8.Proofs.HostRun

/-
  This file shows that the machine has addresses of twelve
  bits.  The program counter, the index register and the
  return addresses have sixteen, but two machines in which
  they select the same cells cannot be told apart by a host,
  except by looking at these addresses.

  Key definitions include:
    * `Machine.Congruent`
    * `Flow.Congruent`
    * `Outcome.Congruent`

  The main statements are:
    * `Machine.congruent_execute`
    * `Machine.congruent_cycle`
    * `Machine.congruent_runs`
-/

------------------------------------------------------------
-- Addresses of the Same Cell
------------------------------------------------------------

namespace Chip8

namespace Memory

/-
  The wrap at 65536 is lost in the wrap at 4096, so counting on
  from two addresses of one cell leads to one cell.
-/
theorem cell_add_congr
    {a b : UInt16}
    (hCell : cell a = cell b)
    (distance : UInt16) :
    cell (a + distance) = cell (b + distance) := by
  have hVal : a.toNat % 4096 = b.toNat % 4096 :=
    congrArg Fin.val hCell
  apply Fin.ext
  simp only [cell, UInt16.toNat_add]
  omega

theorem get_congr
    {a b : UInt16}
    (hCell : cell a = cell b)
    (memory : Memory) :
    memory.get a = memory.get b := by
  unfold get
  rw [hCell]

theorem set_congr
    {a b : UInt16}
    (hCell : cell a = cell b)
    (memory : Memory)
    (value : UInt8) :
    memory.set a value = memory.set b value := by
  unfold set
  rw [hCell]

theorem read_congr
    {a b : UInt16}
    (hCell : cell a = cell b)
    (memory : Memory)
    (count : Nat) :
    memory.read a count = memory.read b count := by
  induction count generalizing a b with
  | zero => rfl
  | succ count ih =>
      unfold read
      rw [get_congr hCell, ih (cell_add_congr hCell 1)]

theorem write_congr
    {a b : UInt16}
    (hCell : cell a = cell b)
    (memory : Memory)
    (values : List UInt8) :
    memory.write a values = memory.write b values := by
  induction values generalizing memory a b with
  | nil => rfl
  | cons value values ih =>
      unfold write
      rw [set_congr hCell, ih (cell_add_congr hCell 1)]

theorem fetch_congr
    {a b : UInt16}
    (hCell : cell a = cell b)
    (memory : Memory) :
    memory.fetch a = memory.fetch b := by
  unfold fetch
  rw [get_congr hCell, get_congr (cell_add_congr hCell 1)]

end Memory

------------------------------------------------------------
-- Congruence
------------------------------------------------------------

/-
  Whether two machines agree on everything but addresses, and
  on the cells that their addresses select.  There are as many
  return addresses in the one as in the other, and what
  remains in the slots above them does not count.
-/
structure Machine.Congruent (m n : Machine) : Prop where
  registers : m.registers = n.registers
  memory : m.memory = n.memory
  pc : Memory.cell m.pc = Memory.cell n.pc
  index : Memory.cell m.index = Memory.cell n.index
  frames :
    m.stack.frames.map Memory.cell =
      n.stack.frames.map Memory.cell
  screen : m.screen = n.screen
  keypad : m.keypad = n.keypad
  clock : m.clock = n.clock
  random : m.random = n.random
  mode : m.mode = n.mode
  config : m.config = n.config

/- Whether two flows go on at the same cell. -/
inductive Flow.Congruent : Flow → Flow → Prop where
  | next : Flow.Congruent .next .next
  | skip : Flow.Congruent .skip .skip
  | goto
      {a b : UInt16}
      (hCell : Memory.cell a = Memory.cell b) :
      Flow.Congruent (.goto a) (.goto b)
  | wait : Flow.Congruent .wait .wait

/- Whether two outcomes have congruent machines and results. -/
structure Outcome.Congruent
    {α : Type}
    (Results : α → α → Prop)
    (first second : Outcome α) : Prop where
  machine : first.machine.Congruent second.machine
  result : Results first.result second.result

namespace Flow

theorem congruent_skipIf (condition : Bool) :
    Congruent (skipIf condition) (skipIf condition) := by
  cases condition
  · exact .next
  · exact .skip

theorem Congruent.destination
    {first second : Flow}
    (h : first.Congruent second)
    {a b : UInt16}
    (hCell : Memory.cell a = Memory.cell b) :
    Memory.cell (first.destination a) =
      Memory.cell (second.destination b) := by
  cases h with
  | next => exact Memory.cell_add_congr hCell 2
  | skip => exact Memory.cell_add_congr hCell 4
  | goto hGoto => exact hGoto
  | wait => exact hCell

theorem Congruent.wait_iff
    {first second : Flow}
    (h : first.Congruent second) :
    first = .wait ↔ second = .wait := by
  cases h <;> simp

end Flow

namespace Machine

variable {m n : Machine}

/- Congruent machines have call stacks of the same depth. -/
theorem Congruent.depth (h : m.Congruent n) :
    m.stack.depth = n.stack.depth := by
  have hLength := congrArg List.length h.frames
  rw [List.length_map, List.length_map] at hLength
  rw [← CallStack.length_frames, hLength,
    CallStack.length_frames]

/- Congruent machines have the same instruction to carry out. -/
theorem congruent_current (h : m.Congruent n) :
    m.current = n.current := by
  unfold current fetched
  rw [h.memory, Memory.fetch_congr h.pc]

theorem congruent_setRegister
    (h : m.Congruent n)
    (r : Register)
    {value other : UInt8}
    (hValue : value = other) :
    (m.setRegister r value).Congruent
      (n.setRegister r other) := by
  rw [hValue]
  exact
    { h with
      registers := congrArg (·.set r other) h.registers }

theorem congruent_setIndex
    (h : m.Congruent n)
    {a b : UInt16}
    (hCell : Memory.cell a = Memory.cell b) :
    (m.setIndex a).Congruent (n.setIndex b) :=
  { h with index := hCell }

/- Bytes are written to the same cells of the same memory. -/
theorem congruent_write
    (h : m.Congruent n)
    {values others : List UInt8}
    (hValues : values = others) :
    (m.write m.index values).Congruent
      (n.write n.index others) := by
  have hWritten :
      m.memory.write m.index values =
        n.memory.write n.index others := by
    rw [h.memory, hValues, Memory.write_congr h.index]
  exact { h with memory := hWritten }

------------------------------------------------------------
-- Parts of Instructions
------------------------------------------------------------

theorem congruent_holds
    (h : m.Congruent n)
    (condition : Condition) :
    m.holds condition = n.holds condition := by
  cases condition <;>
    simp only [holds, h.registers, h.keypad]

theorem congruent_drawRandom
    (h : m.Congruent n)
    (x : Register)
    (mask : UInt8) :
    (m.drawRandom x mask).Congruent
      (n.drawRandom x mask) := by
  have hDrawn : m.random.draw = n.random.draw := by
    rw [h.random]
  apply congruent_setRegister
  · exact { h with random := congrArg Prod.snd hDrawn }
  · rw [hDrawn]

/- A sprite is read from the same cells and drawn alike. -/
theorem congruent_drawSprite
    (h : m.Congruent n)
    (x y : Register)
    (rows : Nibble) :
    (m.drawSprite x y rows).Congruent
      (n.drawSprite x y rows) := by
  have hDrawn :
      m.screen.draw (m.registers.get x) (m.registers.get y)
          (m.memory.read m.index rows.val) =
        n.screen.draw (n.registers.get x) (n.registers.get y)
          (n.memory.read n.index rows.val) := by
    rw [h.screen, h.registers, h.memory,
      Memory.read_congr h.index]
  have hFlagged :
      (m.drawSprite x y rows).registers =
        (n.drawSprite x y rows).registers := by
    simp only [drawSprite]
    rw [hDrawn, h.registers]
  exact
    { h with
      screen := congrArg Prod.fst hDrawn
      registers := hFlagged }

theorem congruent_loadRegisters
    (h : m.Congruent n)
    (x : Register) :
    (m.loadRegisters x).Congruent (n.loadRegisters x) := by
  have hLoaded :
      (m.loadRegisters x).registers =
        (n.loadRegisters x).registers := by
    simp only [loadRegisters]
    rw [h.registers, h.memory, Memory.read_congr h.index]
  exact { h with registers := hLoaded }

/-
  Congruent machines both find their stack empty, or both take
  off newest frames of the same cell.
-/
theorem congruent_executeReturn (h : m.Congruent n) :
    m.executeReturn.Congruent Flow.Congruent
      n.executeReturn := by
  have hDepth := h.depth
  rcases m.executeReturn_cases with
    ⟨hEmpty, hm⟩ | ⟨a, popped, hPop, hm⟩
  · rcases n.executeReturn_cases with
      ⟨_, hn⟩ | ⟨b, other, hOther, hn⟩
    · rw [hm, hn]
      exact ⟨h, .next⟩
    · rw [CallStack.pop_empty (by omega)] at hOther
      cases hOther
  · rcases n.executeReturn_cases with
      ⟨hEmpty, hn⟩ | ⟨b, other, hOther, hn⟩
    · rw [CallStack.pop_empty (by omega)] at hPop
      cases hPop
    · rw [hm, hn]
      have hFrames := h.frames
      rw [CallStack.frames_pop hPop,
        CallStack.frames_pop hOther, List.map_append,
        List.map_append] at hFrames
      rcases List.append_inj' hFrames rfl with
        ⟨hRest, hNewest⟩
      have hCell : Memory.cell a = Memory.cell b :=
        List.head_eq_of_cons_eq hNewest
      exact ⟨{ h with frames := hRest }, .goto hCell⟩

/-
  Congruent machines both find their stack full, or both put
  following addresses of the same cell on it.
-/
theorem congruent_executeCall
    (h : m.Congruent n)
    (target : Target) :
    (m.executeCall target).Congruent Flow.Congruent
      (n.executeCall target) := by
  have hDepth := h.depth
  rcases m.executeCall_cases target with
    ⟨hFull, hm⟩ | ⟨pushed, hPush, hm⟩
  · rcases n.executeCall_cases target with
      ⟨_, hn⟩ | ⟨other, hOther, hn⟩
    · rw [hm, hn]
      exact ⟨h, .next⟩
    · rw [CallStack.push_full (by omega)] at hOther
      cases hOther
  · rcases n.executeCall_cases target with
      ⟨hFull, hn⟩ | ⟨other, hOther, hn⟩
    · rw [CallStack.push_full (by omega)] at hPush
      cases hPush
    · rw [hm, hn]
      have hFollowing :
          Memory.cell m.following =
            Memory.cell n.following :=
        Memory.cell_add_congr h.pc 2
      have hPushed :
          pushed.frames.map Memory.cell =
            other.frames.map Memory.cell := by
        rw [CallStack.frames_push hPush,
          CallStack.frames_push hOther, List.map_append,
          List.map_append, h.frames, List.map_singleton,
          List.map_singleton, hFollowing]
      exact ⟨{ h with frames := hPushed }, .goto rfl⟩

theorem congruent_executeAwaitKey
    (h : m.Congruent n)
    (x : Register) :
    (m.executeAwaitKey x).Congruent Flow.Congruent
      (n.executeAwaitKey x) := by
  have hKey := congrArg Keypad.firstHeld h.keypad
  unfold executeAwaitKey
  rw [hKey]
  cases n.keypad.firstHeld with
  | none =>
      exact ⟨{ h with mode := rfl }, .wait⟩
  | some key =>
      exact ⟨congruent_setRegister h x rfl, .next⟩

------------------------------------------------------------
-- Instructions
------------------------------------------------------------

/- Every instruction respects the congruence of machines. -/
theorem congruent_execute
    (h : m.Congruent n)
    (instruction : Instruction) :
    (m.execute instruction).Congruent Flow.Congruent
      (n.execute instruction) := by
  have hRegisters := h.registers
  have hClock := h.clock
  cases instruction with
  | clearScreen =>
      have hCleared := congrArg Screen.clear h.screen
      exact ⟨{ h with screen := hCleared }, .next⟩
  | ret => exact congruent_executeReturn h
  | jump target => exact ⟨h, .goto rfl⟩
  | call target => exact congruent_executeCall h target
  | skipIf condition =>
      refine ⟨h, ?_⟩
      simp only [execute, Outcome.quiet,
        congruent_holds h condition]
      exact Flow.congruent_skipIf _
  | setByte x byte =>
      exact ⟨congruent_setRegister h x rfl, .next⟩
  | addByte x byte =>
      have hAdded :=
        congrArg (fun v => v.add x byte) hRegisters
      exact ⟨{ h with registers := hAdded }, .next⟩
  | combine operation x y =>
      have hCombined :=
        congrArg (fun v => v.combine operation x y) hRegisters
      exact ⟨{ h with registers := hCombined }, .next⟩
  | setIndex target =>
      exact ⟨congruent_setIndex h rfl, .next⟩
  | jumpOffset target =>
      refine ⟨h, .goto ?_⟩
      rw [hRegisters]
  | random x mask =>
      exact ⟨congruent_drawRandom h x mask, .next⟩
  | draw x y rows =>
      exact ⟨congruent_drawSprite h x y rows, .next⟩
  | getDelay x =>
      have hDelay : m.clock.delay = n.clock.delay := by
        rw [hClock]
      exact ⟨congruent_setRegister h x hDelay, .next⟩
  | awaitKey x => exact congruent_executeAwaitKey h x
  | setDelay x =>
      have hSet :
          (m.setDelay (m.registers.get x)).clock =
            (n.setDelay (n.registers.get x)).clock := by
        simp only [setDelay, hRegisters, hClock]
      exact ⟨{ h with clock := hSet }, .next⟩
  | setSound x =>
      have hSet :
          (m.setSound (m.registers.get x)).clock =
            (n.setSound (n.registers.get x)).clock := by
        simp only [setSound, hRegisters, hClock]
      exact ⟨{ h with clock := hSet }, .next⟩
  | addIndex x =>
      have hAdded :
          Memory.cell (m.addIndex (m.registers.get x)).index =
            Memory.cell
              (n.addIndex (n.registers.get x)).index := by
        rw [hRegisters]
        exact Memory.cell_add_congr h.index _
      exact ⟨{ h with index := hAdded }, .next⟩
  | pointGlyph x =>
      refine ⟨congruent_setIndex h ?_, .next⟩
      rw [hRegisters]
  | storeDecimal x =>
      refine ⟨congruent_write h ?_, .next⟩
      rw [hRegisters]
  | store x =>
      refine ⟨congruent_write h ?_, .next⟩
      rw [hRegisters]
  | load x =>
      exact ⟨congruent_loadRegisters h x, .next⟩
  | unknown word => exact ⟨h, .next⟩

------------------------------------------------------------
-- Cycles
------------------------------------------------------------

theorem congruent_dispatch (h : m.Congruent n) :
    m.dispatch.Congruent Eq n.dispatch := by
  have hEffect := congruent_execute h m.current
  constructor
  · rw [machine_dispatch, machine_dispatch,
      ← congruent_current h]
    exact
      { hEffect.machine with
        pc :=
          hEffect.result.destination hEffect.machine.pc }
  · unfold dispatch
    rw [← congruent_current h]
    simp only [hEffect.result.wait_iff]

theorem congruent_resume
    (h : m.Congruent n)
    (r : Register) :
    (m.resume r).Congruent Eq (n.resume r) := by
  have hKey := congrArg Keypad.firstHeld h.keypad
  unfold resume
  rw [hKey]
  cases n.keypad.firstHeld with
  | none => exact ⟨h, rfl⟩
  | some key =>
      have hSet :
          (m.setRegister r key.toByte).Congruent
            (n.setRegister r key.toByte) :=
        congruent_setRegister h r rfl
      exact
        ⟨{ hSet with
            pc := Memory.cell_add_congr h.pc 2
            mode := rfl },
          rfl⟩

/- Congruent machines complete the same instruction. -/
theorem congruent_cycle (h : m.Congruent n) :
    m.cycle.Congruent Eq n.cycle := by
  unfold cycle
  rw [h.mode]
  cases n.mode with
  | running => exact congruent_dispatch h
  | awaitingKey r => exact congruent_resume h r

theorem congruent_cycles
    (h : m.Congruent n)
    (count : Nat) :
    (m.cycles count).Congruent Eq (n.cycles count) := by
  induction count generalizing m n with
  | zero => exact ⟨h, rfl⟩
  | succ count ih =>
      have hFirst := congruent_cycle h
      have hRest := ih hFirst.machine
      refine ⟨hRest.machine, ?_⟩
      simp only [cycles, hFirst.result, hRest.result]

------------------------------------------------------------
-- Runs
------------------------------------------------------------

theorem congruent_load
    (h : m.Congruent n)
    (program : List UInt8) :
    (m.load program).Congruent Eq (n.load program) := by
  unfold load
  split
  · have hInstalled :
        (m.install program).memory =
          (n.install program).memory := by
      simp only [install, write, jumpTo, h.memory]
    exact
      ⟨{ h with
          memory := hInstalled
          pc := rfl
          mode := rfl },
        rfl⟩
  · exact ⟨h, rfl⟩

theorem congruent_cleared (h : m.Congruent n) :
    m.cleared.Congruent n.cleared := by
  rw [cleared_eq_initial, cleared_eq_initial, h.config,
    h.random]
  constructor <;> rfl

theorem congruent_setKey
    (h : m.Congruent n)
    (key : Nat)
    (down : Bool) :
    (m.setKey key down).machine.Congruent
      (n.setKey key down).machine := by
  have hEvent :
      (m.keypad.set key down).1 =
        (n.keypad.set key down).1 := by
    rw [h.keypad]
  exact { h with keypad := hEvent }

/- The clocks have to agree, down to the time not yet counted. -/
theorem congruent_clock
    (h : m.Congruent n)
    {clock other : TimerClock}
    (hClock : clock = other) :
    { m with clock := clock }.Congruent
      { n with clock := other } :=
  { h with clock := hClock }

/-
  Whatever the host calls for, congruent machines stay
  congruent and give the same answer.
-/
theorem congruent_call
    (h : m.Congruent n)
    (call : HostCall) :
    (m.after call).Congruent (n.after call) ∧
      m.answer call = n.answer call := by
  cases call with
  | load program =>
      have hLoad := congruent_load h program
      refine ⟨hLoad.machine, ?_⟩
      exact congrArg Answer.loaded hLoad.result
  | reset => exact ⟨congruent_cleared h, rfl⟩
  | setKey key down =>
      exact ⟨congruent_setKey h key down, rfl⟩
  | cycle =>
      have hCycle := congruent_cycle h
      refine ⟨hCycle.machine, ?_⟩
      unfold answer
      rw [hCycle.result]
  | step delta =>
      have hBatch : m.batch = n.batch := by
        unfold batch
        rw [h.config]
      have hCycles := congruent_cycles h m.batch
      constructor
      · rw [after_step, after_step, ← hBatch]
        apply congruent_clock hCycles.machine
        rw [hCycles.machine.clock]
      · unfold answer
        rw [← hBatch]
        exact congrArg Answer.cycled hCycles.result

/-
  Addresses count modulo 4096 in every run: congruent machines
  stay congruent under each call of the host and along each
  list of calls, and the host gets the same answers.
-/
theorem congruent_runs (h : m.Congruent n) :
    (∀ call,
      (m.after call).Congruent (n.after call) ∧
        m.answer call = n.answer call) ∧
    ∀ calls,
      (m.run calls).Congruent (n.run calls) ∧
        (m.history calls).map Prod.snd =
          (n.history calls).map Prod.snd := by
  refine ⟨congruent_call h, fun calls => ?_⟩
  induction calls generalizing m n with
  | nil => exact ⟨h, rfl⟩
  | cons call calls ih =>
      rcases congruent_call h call with ⟨hAfter, hAnswer⟩
      rcases ih hAfter with ⟨hRun, hAnswers⟩
      refine ⟨hRun, ?_⟩
      simp only [history, List.map_cons, hAnswer, hAnswers]

/-
  A machine in a subroutine at the first word of memory, which
  is a return, with every address of its own shifted.
-/
def inSubroutine (shift : UInt16) : Machine :=
  { initial {} (.ofSeed 7) with
    memory := Memory.blank.write 0 [0x00, 0xEE]
    pc := shift
    index := 0x0FFF + shift
    stack :=
      { slots := .fill 16 (0x0202 + shift)
        depth := 1
        depth_le := by decide } }

/- The return leads to cells 0x202 of machines 0xF000 apart. -/
theorem inSubroutine_runs :
    (inSubroutine 0).Congruent (inSubroutine 0xF000) ∧
      (inSubroutine 0).cycle.machine.pc = 0x0202 ∧
      (inSubroutine 0xF000).cycle.machine.pc = 0xF202 ∧
      ((inSubroutine 0).run
          [.cycle, .setKey 3 true, .cycle]).Congruent
        ((inSubroutine 0xF000).run
          [.cycle, .setKey 3 true, .cycle]) ∧
      ((inSubroutine 0).history
          [.cycle, .setKey 3 true, .cycle]).map Prod.snd =
        ((inSubroutine 0xF000).history
          [.cycle, .setKey 3 true, .cycle]).map Prod.snd := by
  have hShifted :
      (inSubroutine 0).Congruent (inSubroutine 0xF000) :=
    { registers := rfl
      memory := rfl
      pc := by decide
      index := by decide
      frames := by decide
      screen := rfl
      keypad := rfl
      clock := rfl
      random := rfl
      mode := rfl
      config := rfl }
  have hRun :=
    (congruent_runs hShifted).2
      [.cycle, .setKey 3 true, .cycle]
  exact
    ⟨hShifted, by decide +kernel, by decide +kernel, hRun⟩

end Machine

end Chip8
