import Chip8.Proofs.Dispatch
import Chip8.Proofs.WordForm

/-
  This file bounds what one cycle can change.  Each part of
  the machine is kept by every instruction but the few that
  are named with it.

  Key definitions include:
    * `Operation.setsFlag`, `Instruction.Sets`
    * `Word.Sets`, `Word.Stores`
    * `Machine.Footprint`, `Machine.ParkedFootprint`

  The main statement is:
    * `Machine.cycle_footprint`
-/

------------------------------------------------------------
-- Registers Set by an Instruction
------------------------------------------------------------

namespace Chip8

/- Whether an operation has a flag. -/
def Operation.setsFlag : Operation → Bool
| .add | .sub | .shiftRight | .subFrom | .shiftLeft => true
| _ => false

/- Whether an instruction can set a register. -/
def Instruction.Sets
    (r : Register) : Instruction → Prop
| .setByte x _ | .addByte x _ | .random x _ => r = x
| .getDelay x | .awaitKey x => r = x
| .combine operation x _ =>
    r = x ∨
      operation.setsFlag = true ∧ r = Registers.flagRegister
| .draw .. => r = Registers.flagRegister
| .load x => r ≤ x
| _ => False

namespace Registers

theorem get_set_cases
    (v : Registers)
    (x r : Register)
    (value : UInt8) :
    (v.set x value).get r = v.get r ∨ r = x := by
  by_cases hEq : x = r
  · exact Or.inr hEq.symm
  · exact Or.inl (get_set_of_ne hEq)

/- Combining two registers sets VX, and VF for a flag. -/
theorem get_combine_cases
    (v : Registers)
    (operation : Operation)
    (x y r : Register) :
    (v.combine operation x y).get r = v.get r ∨
      (Instruction.combine operation x y).Sets r := by
  by_cases hX : x = r
  · exact Or.inr (Or.inl hX.symm)
  · by_cases hFlag : flagRegister = r
    · cases operation
      case copy | bitOr | bitAnd | bitXor =>
        exact Or.inl (get_set_of_ne hX)
      all_goals
        exact Or.inr (Or.inr ⟨rfl, hFlag.symm⟩)
    · apply Or.inl
      unfold combine
      rw [get_set_of_ne hX]
      cases operation
      case copy | bitOr | bitAnd | bitXor => rfl
      all_goals exact get_set_of_ne hFlag

/- Loading from V0 on leaves the later registers alone. -/
theorem get_setLeading_cases
    (v : Registers)
    (values : List UInt8)
    (r : Register) :
    (v.setLeading values).get r = v.get r ∨
      r.val < values.length := by
  by_cases hLe : values.length ≤ r.val
  · exact Or.inl (get_setFrom_of_le v 0 values r (by omega))
  · exact Or.inr (by omega)

theorem length_leading
    (v : Registers)
    (x : Register) :
    (v.leading x).length = x.val + 1 := by
  have hLt : x.val + 1 ≤ 16 := x.isLt
  unfold leading
  rw [List.length_take, Vector.length_toList,
    Nat.min_eq_left hLt]

end Registers

------------------------------------------------------------
-- Bytes Met by a Write
------------------------------------------------------------

namespace Memory

/- A write keeps every byte that it does not meet. -/
theorem read_write_cases
    (memory : Memory)
    (a : UInt16)
    (values : List UInt8)
    (b : Fin 4096) :
    (memory.write a values).bytes.read b =
        memory.bytes.read b ∨
      ∃ k, k < values.length ∧
        b.val = (a.toNat + k) % 4096 := by
  by_cases hMet :
      ∃ k, k < values.length ∧ b.val = (a.toNat + k) % 4096
  · exact Or.inr hMet
  · apply Or.inl
    have hCell : cell (UInt16.ofNat b.val) = b := by
      have := b.isLt
      apply Fin.ext
      simp only [cell, UInt16.toNat_ofNat']
      omega
    have hKept :=
      get_write_of_outside memory a (UInt16.ofNat b.val)
        values
        (fun k hk hEq => hMet
          ⟨k, hk, by
            rw [hCell] at hEq
            rw [← hEq, cell_add]
            simp [cell]⟩)
    simpa only [get, hCell] using hKept

end Memory

------------------------------------------------------------
-- Frames of Instructions
------------------------------------------------------------

namespace Machine

theorem stack_execute
    (m : Machine)
    (instruction : Instruction) :
    (m.execute instruction).machine.stack = m.stack ∨
      instruction = .ret ∨
      ∃ target, instruction = .call target := by
  cases instruction with
  | ret => exact Or.inr (Or.inl rfl)
  | call target => exact Or.inr (Or.inr ⟨target, rfl⟩)
  | awaitKey x =>
      have hFrame := m.executeAwaitKey_frame x
      exact Or.inl (congrArg (·.stack) hFrame)
  | _ => exact Or.inl rfl

theorem index_execute
    (m : Machine)
    (instruction : Instruction) :
    (m.execute instruction).machine.index = m.index ∨
      (∃ target, instruction = .setIndex target) ∨
      (∃ x, instruction = .addIndex x) ∨
      ∃ x, instruction = .pointGlyph x := by
  cases instruction with
  | setIndex target => exact Or.inr (Or.inl ⟨target, rfl⟩)
  | addIndex x => exact Or.inr (Or.inr (Or.inl ⟨x, rfl⟩))
  | pointGlyph x => exact Or.inr (Or.inr (Or.inr ⟨x, rfl⟩))
  | ret =>
      have hFrame := m.executeReturn_frame
      exact Or.inl (congrArg (·.index) hFrame)
  | call target =>
      have hFrame := m.executeCall_frame target
      exact Or.inl (congrArg (·.index) hFrame)
  | awaitKey x =>
      have hFrame := m.executeAwaitKey_frame x
      exact Or.inl (congrArg (·.index) hFrame)
  | _ => exact Or.inl rfl

/-
  Memory changes only where the three digits of a register or
  the registers V0 to VX are stored.
-/
theorem memory_execute
    (m : Machine)
    (instruction : Instruction)
    (b : Fin 4096) :
    (m.execute instruction).machine.memory.bytes.read b =
        m.memory.bytes.read b ∨
      ((∃ x, instruction = .storeDecimal x) ∧
        ∃ k, k ≤ 2 ∧ b.val = (m.index.toNat + k) % 4096) ∨
      ∃ x, instruction = .store x ∧
        ∃ k, k ≤ x.val ∧
          b.val = (m.index.toNat + k) % 4096 := by
  cases instruction with
  | storeDecimal x =>
      rcases Memory.read_write_cases m.memory m.index
          (decimalDigits (m.registers.get x)) b with
        hKept | ⟨k, hLt, hMet⟩
      · exact Or.inl hKept
      · have hLe : k ≤ 2 := Nat.le_of_lt_succ hLt
        exact Or.inr (Or.inl ⟨⟨x, rfl⟩, k, hLe, hMet⟩)
  | store x =>
      rcases Memory.read_write_cases m.memory m.index
          (m.registers.leading x) b with
        hKept | ⟨k, hLt, hMet⟩
      · exact Or.inl hKept
      · rw [Registers.length_leading] at hLt
        have hLe : k ≤ x.val := Nat.le_of_lt_succ hLt
        exact Or.inr (Or.inr ⟨x, rfl, k, hLe, hMet⟩)
  | ret =>
      have hFrame := m.executeReturn_frame
      exact
        Or.inl (congrArg (·.memory.bytes.read b) hFrame)
  | call target =>
      have hFrame := m.executeCall_frame target
      exact
        Or.inl (congrArg (·.memory.bytes.read b) hFrame)
  | awaitKey x =>
      have hFrame := m.executeAwaitKey_frame x
      exact
        Or.inl (congrArg (·.memory.bytes.read b) hFrame)
  | _ => exact Or.inl rfl

theorem screen_execute
    (m : Machine)
    (instruction : Instruction) :
    (m.execute instruction).machine.screen = m.screen ∨
      instruction = .clearScreen ∨
      ∃ x y rows, instruction = .draw x y rows := by
  cases instruction with
  | clearScreen => exact Or.inr (Or.inl rfl)
  | draw x y rows => exact Or.inr (Or.inr ⟨x, y, rows, rfl⟩)
  | ret =>
      have hFrame := m.executeReturn_frame
      exact Or.inl (congrArg (·.screen) hFrame)
  | call target =>
      have hFrame := m.executeCall_frame target
      exact Or.inl (congrArg (·.screen) hFrame)
  | awaitKey x =>
      have hFrame := m.executeAwaitKey_frame x
      exact Or.inl (congrArg (·.screen) hFrame)
  | _ => exact Or.inl rfl

theorem delay_execute
    (m : Machine)
    (instruction : Instruction) :
    (m.execute instruction).machine.clock.delay =
        m.clock.delay ∨
      ∃ x, instruction = .setDelay x := by
  cases instruction with
  | setDelay x => exact Or.inr ⟨x, rfl⟩
  | ret =>
      have hFrame := m.executeReturn_frame
      exact Or.inl (congrArg (·.clock.delay) hFrame)
  | call target =>
      have hFrame := m.executeCall_frame target
      exact
        Or.inl (congrArg (·.clock.delay) hFrame)
  | awaitKey x =>
      have hFrame := m.executeAwaitKey_frame x
      exact
        Or.inl (congrArg (·.clock.delay) hFrame)
  | _ => exact Or.inl rfl

theorem sound_execute
    (m : Machine)
    (instruction : Instruction) :
    (m.execute instruction).machine.clock.sound =
        m.clock.sound ∨
      ∃ x, instruction = .setSound x := by
  cases instruction with
  | setSound x => exact Or.inr ⟨x, rfl⟩
  | ret =>
      have hFrame := m.executeReturn_frame
      exact Or.inl (congrArg (·.clock.sound) hFrame)
  | call target =>
      have hFrame := m.executeCall_frame target
      exact
        Or.inl (congrArg (·.clock.sound) hFrame)
  | awaitKey x =>
      have hFrame := m.executeAwaitKey_frame x
      exact
        Or.inl (congrArg (·.clock.sound) hFrame)
  | _ => exact Or.inl rfl

theorem random_execute
    (m : Machine)
    (instruction : Instruction) :
    (m.execute instruction).machine.random = m.random ∨
      ∃ x mask, instruction = .random x mask := by
  cases instruction with
  | random x mask => exact Or.inr ⟨x, mask, rfl⟩
  | ret =>
      have hFrame := m.executeReturn_frame
      exact Or.inl (congrArg (·.random) hFrame)
  | call target =>
      have hFrame := m.executeCall_frame target
      exact Or.inl (congrArg (·.random) hFrame)
  | awaitKey x =>
      have hFrame := m.executeAwaitKey_frame x
      exact Or.inl (congrArg (·.random) hFrame)
  | _ => exact Or.inl rfl

/- A key wait that parks changes the mode and nothing else. -/
theorem mode_execute
    (m : Machine)
    (instruction : Instruction) :
    (m.execute instruction).machine.mode = m.mode ∨
      ∃ x, instruction = .awaitKey x ∧
        m.keypad.firstHeld = none ∧
        m.execute instruction =
          .quiet { m with mode := .awaitingKey x } .wait := by
  cases instruction with
  | awaitKey x =>
      rcases m.executeAwaitKey_cases x with
        ⟨key, _, hEq⟩ | ⟨hNone, hEq⟩
      · apply Or.inl
        simp only [execute, hEq]
        rfl
      · exact Or.inr ⟨x, rfl, hNone, hEq⟩
  | ret =>
      have hFrame := m.executeReturn_frame
      exact Or.inl (congrArg (·.mode) hFrame)
  | call target =>
      have hFrame := m.executeCall_frame target
      exact Or.inl (congrArg (·.mode) hFrame)
  | _ => exact Or.inl rfl

theorem registers_execute
    (m : Machine)
    (instruction : Instruction)
    (r : Register) :
    (m.execute instruction).machine.registers.get r =
        m.registers.get r ∨
      instruction.Sets r := by
  cases instruction with
  | setByte x byte | addByte x byte | random x mask
  | getDelay x =>
      exact Registers.get_set_cases _ _ _ _
  | awaitKey x =>
      rcases m.executeAwaitKey_cases x with
        ⟨key, _, hEq⟩ | ⟨_, hEq⟩
      · simp only [execute, hEq]
        exact Registers.get_set_cases _ _ _ _
      · simp only [execute, hEq]
        exact Or.inl rfl
  | combine operation x y =>
      exact Registers.get_combine_cases _ _ _ _ _
  | draw x y rows =>
      exact Registers.get_set_cases _ _ _ _
  | load x =>
      rcases Registers.get_setLeading_cases m.registers
          (m.memory.read m.index (x.val + 1)) r with
        hKept | hLt
      · exact Or.inl hKept
      · have hLe : r.val ≤ x.val := by
          simpa [Nat.lt_succ_iff] using hLt
        exact Or.inr hLe
  | ret =>
      have hFrame := m.executeReturn_frame
      exact
        Or.inl (congrArg (·.registers.get r) hFrame)
  | call target =>
      have hFrame := m.executeCall_frame target
      exact
        Or.inl (congrArg (·.registers.get r) hFrame)
  | _ => exact Or.inl rfl

/-
  No instruction changes what the host alone reaches: the
  keypad, the configuration and the pending time.
-/
theorem host_execute
    (m : Machine)
    (instruction : Instruction) :
    (m.execute instruction).machine.keypad = m.keypad ∧
      (m.execute instruction).machine.config = m.config ∧
      (m.execute instruction).machine.clock.pending =
        m.clock.pending := by
  cases instruction with
  | ret =>
      have hFrame := m.executeReturn_frame
      exact
        ⟨congrArg (·.keypad) hFrame,
          congrArg (·.config) hFrame,
          congrArg (·.clock.pending) hFrame⟩
  | call target =>
      have hFrame := m.executeCall_frame target
      exact
        ⟨congrArg (·.keypad) hFrame,
          congrArg (·.config) hFrame,
          congrArg (·.clock.pending) hFrame⟩
  | awaitKey x =>
      have hFrame := m.executeAwaitKey_frame x
      exact
        ⟨congrArg (·.keypad) hFrame,
          congrArg (·.config) hFrame,
          congrArg (·.clock.pending) hFrame⟩
  | _ => exact ⟨rfl, rfl, rfl⟩

end Machine

------------------------------------------------------------
-- Footprints of Words
------------------------------------------------------------

namespace Word

/-
  Whether a word can set a register: V0 to VX under FX65, VX
  under a load, a sum or an operation, VF under an operation
  with a flag or a drawing.
-/
def Sets
    (w : Word)
    (r : Register) : Prop :=
  (w.IsDevice 0x65 ∧ r ≤ w.x) ∨
  (r = w.x ∧
    (w.family.val = 0x6 ∨ w.family.val = 0x7 ∨
      (w.family.val = 0x8 ∧
        (w.n.val ≤ 0x7 ∨ w.n.val = 0xE)) ∨
      w.family.val = 0xC ∨
      w.IsDevice 0x07 ∨ w.IsDevice 0x0A)) ∨
  (r = Registers.flagRegister ∧
    ((w.family.val = 0x8 ∧
        ((0x4 ≤ w.n.val ∧ w.n.val ≤ 0x7) ∨
          w.n.val = 0xE)) ∨
      w.family.val = 0xD))

/-
  Whether a word can store into a byte of memory, given the
  index register.
-/
def Stores
    (w : Word)
    (index : UInt16)
    (b : Fin 4096) : Prop :=
  (w.IsDevice 0x33 ∧
    ∃ k, k ≤ 2 ∧ b.val = (index.toNat + k) % 4096) ∨
  (w.IsDevice 0x55 ∧
    ∃ k, k ≤ w.x.val ∧ b.val = (index.toNat + k) % 4096)

theorem sets_of_hasForm
    {w : Word}
    {instruction : Instruction}
    {r : Register}
    (hForm : instruction.HasForm w)
    (hSets : instruction.Sets r) :
    w.Sets r := by
  cases instruction with
  | setByte x byte | addByte x byte | random x mask =>
      rcases hForm with ⟨hFamily, rfl, _⟩
      exact Or.inr (Or.inl ⟨hSets, by simp [hFamily]⟩)
  | getDelay x | awaitKey x =>
      rcases hForm with ⟨hDevice, rfl⟩
      exact Or.inr (Or.inl ⟨hSets, by simp [hDevice]⟩)
  | combine operation x y =>
      rcases hForm with ⟨hFamily, hCode, rfl, _⟩
      rcases hSets with hX | ⟨hFlag, hF⟩
      · refine Or.inr (Or.inl ⟨hX, ?_⟩)
        cases operation <;>
          simp [hFamily, hCode, Operation.code]
      · refine Or.inr (Or.inr ⟨hF, ?_⟩)
        cases operation <;>
          simp_all [Operation.code, Operation.setsFlag]
  | draw x y rows =>
      rcases hForm with ⟨hFamily, _⟩
      exact Or.inr (Or.inr ⟨hSets, Or.inr hFamily⟩)
  | load x =>
      rcases hForm with ⟨hDevice, rfl⟩
      exact Or.inl ⟨hDevice, hSets⟩
  | _ => exact hSets.elim

end Word

------------------------------------------------------------
-- Footprint of a Cycle
------------------------------------------------------------

namespace Machine

/-
  What the dispatch of a word can change: each part is kept
  or the word is one of those that reach it.
-/
structure Footprint
    (m : Machine)
    (w : Word)
    (after : Machine) : Prop where
  stack :
    after.stack = m.stack ∨
      w.family.val = 0x2 ∨ w = 0x00EE
  index :
    after.index = m.index ∨
      w.family.val = 0xA ∨ w.IsDevice 0x1E ∨ w.IsDevice 0x29
  memory :
    ∀ b,
      after.memory.bytes.read b = m.memory.bytes.read b ∨
        w.Stores m.index b
  screen :
    after.screen = m.screen ∨
      w = 0x00E0 ∨ w.family.val = 0xD
  delay :
    after.clock.delay = m.clock.delay ∨ w.IsDevice 0x15
  sound :
    after.clock.sound = m.clock.sound ∨ w.IsDevice 0x18
  random :
    after.random = m.random ∨ w.family.val = 0xC
  mode :
    after.mode = m.mode ∨
      (w.IsDevice 0x0A ∧ m.keypad.firstHeld = none ∧
        after = { m with mode := .awaitingKey w.x })
  registers :
    ∀ r,
      after.registers.get r = m.registers.get r ∨ w.Sets r
  keypad : after.keypad = m.keypad
  config : after.config = m.config
  pending : after.clock.pending = m.clock.pending

/-
  What a cycle of a machine that waits for a key can change:
  the awaited register, the program counter and the mode.
-/
structure ParkedFootprint
    (m : Machine)
    (r : Register)
    (after : Machine) : Prop where
  registers :
    ∀ s, s ≠ r → after.registers.get s = m.registers.get s
  rest :
    after =
      { m with
        registers := after.registers
        pc := after.pc
        mode := after.mode }

theorem hasForm_of_current
    {m : Machine}
    {instruction : Instruction}
    (h : m.current = instruction) :
    instruction.HasForm m.fetched := by
  rw [← h]
  exact Instruction.hasForm_decode m.fetched

theorem dispatch_footprint (m : Machine) :
    m.Footprint m.fetched m.dispatch.machine := by
  rw [machine_dispatch]
  constructor
  case stack =>
    rcases m.stack_execute m.current with
      hKept | hRet | ⟨target, hCall⟩
    · exact Or.inl hKept
    · exact Or.inr (Or.inr (hasForm_of_current hRet))
    · exact Or.inr (Or.inl (hasForm_of_current hCall).1)
  case index =>
    rcases m.index_execute m.current with
      hKept | ⟨target, hSet⟩ | ⟨x, hAdd⟩ | ⟨x, hGlyph⟩
    · exact Or.inl hKept
    · exact Or.inr (Or.inl (hasForm_of_current hSet).1)
    · exact
        Or.inr (Or.inr (Or.inl (hasForm_of_current hAdd).1))
    · exact
        Or.inr
          (Or.inr (Or.inr (hasForm_of_current hGlyph).1))
  case memory =>
    intro b
    rcases m.memory_execute m.current b with
      hKept | ⟨⟨x, hDigits⟩, hMet⟩ | ⟨x, hStore, hMet⟩
    · exact Or.inl hKept
    · exact
        Or.inr
          (Or.inl ⟨(hasForm_of_current hDigits).1, hMet⟩)
    · rcases hasForm_of_current hStore with
        ⟨hDevice, rfl⟩
      exact Or.inr (Or.inr ⟨hDevice, hMet⟩)
  case screen =>
    rcases m.screen_execute m.current with
      hKept | hClear | ⟨x, y, rows, hDraw⟩
    · exact Or.inl hKept
    · exact Or.inr (Or.inl (hasForm_of_current hClear))
    · exact Or.inr (Or.inr (hasForm_of_current hDraw).1)
  case delay =>
    rcases m.delay_execute m.current with
      hKept | ⟨x, hDelay⟩
    · exact Or.inl hKept
    · exact Or.inr (hasForm_of_current hDelay).1
  case sound =>
    rcases m.sound_execute m.current with
      hKept | ⟨x, hSound⟩
    · exact Or.inl hKept
    · exact Or.inr (hasForm_of_current hSound).1
  case random =>
    rcases m.random_execute m.current with
      hKept | ⟨x, mask, hRandom⟩
    · exact Or.inl hKept
    · exact Or.inr (hasForm_of_current hRandom).1
  case mode =>
    rcases m.mode_execute m.current with
      hKept | ⟨x, hAwait, hNone, hEq⟩
    · exact Or.inl hKept
    · rcases hasForm_of_current hAwait with
        ⟨hDevice, rfl⟩
      refine Or.inr ⟨hDevice, hNone, ?_⟩
      rw [hEq]
      rfl
  case registers =>
    intro r
    rcases m.registers_execute m.current r with
      hKept | hSets
    · exact Or.inl hKept
    · exact
        Or.inr
          (Word.sets_of_hasForm
            (Instruction.hasForm_decode m.fetched) hSets)
  case keypad => exact (m.host_execute m.current).1
  case config => exact (m.host_execute m.current).2.1
  case pending => exact (m.host_execute m.current).2.2

theorem resume_footprint
    (m : Machine)
    (r : Register) :
    m.ParkedFootprint r (m.resume r).machine := by
  rcases m.resume_cases r with
    ⟨_, hEq⟩ | ⟨key, _, hEq⟩
  · rw [hEq]
    exact ⟨fun s hNe => rfl, rfl⟩
  · rw [hEq]
    exact
      ⟨fun s hNe => Registers.get_set_of_ne hNe.symm, rfl⟩

/- One cycle changes nothing outside its footprint. -/
theorem cycle_footprint (m : Machine) :
    match m.mode with
    | .running => m.Footprint m.fetched m.cycle.machine
    | .awaitingKey r =>
        m.ParkedFootprint r m.cycle.machine := by
  cases hMode : m.mode with
  | running =>
      rw [cycle_running hMode]
      exact m.dispatch_footprint
  | awaitingKey r =>
      rw [cycle_awaiting hMode]
      exact m.resume_footprint r

end Machine

end Chip8
