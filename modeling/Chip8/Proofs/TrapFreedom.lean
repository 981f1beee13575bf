import Chip8.Proofs.Checked.Execution

/-
  This file shows that no run traps: the machine whose accesses
  are all checked goes through the same states as the machine
  that checks nothing, whatever the host does.

  Key definitions include:
    * `Checked.State.ofMachine`
    * `Checked.State.ReadsAs`

  The main statements are:
    * `Checked.State.execute_ofMachine`
    * `Checked.State.act_ofMachine`
    * `Checked.run_never_traps`
-/

------------------------------------------------------------
-- Loops
------------------------------------------------------------

namespace Chip8

namespace Checked

@[simp] theorem readBytes_eq
    (memory : Memory)
    (start : UInt16)
    (first count : Nat) :
    readBytes memory start first count =
      .ok
        (memory.read (start + UInt16.ofNat first) count) := by
  induction count generalizing first with
  | zero => rfl
  | succ count ih =>
      simp [readBytes, ih, Memory.read, UInt16.add_assoc]

/- The number of a register below sixteen names it. -/
theorem ofByte_ofNat
    {k : Nat}
    (hLt : k < 16) :
    Nibble.ofByte (UInt8.ofNat k) = ⟨k, hLt⟩ := by
  apply Fin.ext
  simp only [Nibble.ofByte, Nibble.ofNat, UInt8.toNat_ofNat']
  omega

theorem storeRegisters_eq
    (v : Registers)
    (memory : Memory)
    (start : UInt16)
    {first count : Nat}
    (hFits : first + count ≤ 16) :
    storeRegisters v memory start first count =
      .ok
        (memory.write (start + UInt16.ofNat first)
          ((v.cells.toList.drop first).take count)) := by
  induction count generalizing memory first with
  | zero => rfl
  | succ count ih =>
      have hLt : first < 16 := by omega
      have hNext :
          v.cells.toList.drop first =
            v.get ⟨first, hLt⟩ ::
              v.cells.toList.drop (first + 1) := by
        have hLength : first < v.cells.toList.length := by
          simpa using hLt
        rw [List.drop_eq_getElem_cons hLength]
        exact
          congrArg (· :: _)
            (Cells.getElem_toList v.cells ⟨first, hLt⟩ hLength)
      have hRest : first + 1 + count ≤ 16 := by omega
      simp [storeRegisters, ofByte_ofNat hLt, ih _ hRest,
        hNext, Memory.write, UInt16.add_assoc]

theorem loadRegisters_eq
    (v : Registers)
    (memory : Memory)
    (start : UInt16)
    {first count : Nat}
    (hFits : first + count ≤ 16) :
    loadRegisters v memory start first count =
      .ok
        (v.setFrom first
          (memory.read (start + UInt16.ofNat first)
            count)) := by
  induction count generalizing v first with
  | zero => rfl
  | succ count ih =>
      have hLt : first < 16 := by omega
      have hRest : first + 1 + count ≤ 16 := by omega
      simp [loadRegisters, ofByte_ofNat hLt, ih _ hRest, hLt,
        Memory.read, Registers.setFrom, UInt16.add_assoc]

/- The digits of a byte are computed in eight bits. -/
theorem decimalDigits_eq (value : UInt8) :
    Machine.decimalDigits value =
      [value / 100, value / 10 % 10, value % 10] := by
  have hLt := value.toNat_lt
  have hTens : value.toNat / 10 < 256 := by omega
  rw [Machine.decimalDigits,
    UInt8.ofNat_div hLt (by decide),
    UInt8.ofNat_mod hTens (by decide),
    UInt8.ofNat_div hLt (by decide),
    UInt8.ofNat_mod hLt (by decide), UInt8.ofNat_toNat]
  rfl

@[simp] theorem storeDecimal_eq
    (memory : Memory)
    (start : UInt16)
    (value : UInt8) :
    storeDecimal memory start value =
      .ok
        (memory.write start
          (Machine.decimalDigits value)) := by
  have hTwo : start + 2 = start + 1 + 1 := by
    rw [UInt16.add_assoc]
    rfl
  simp [storeDecimal, decimalDigits_eq, hTwo, Memory.write]

@[simp] theorem combine_eq
    (v : Registers)
    (operation : Operation)
    (x y : Register) :
    combine v operation x y =
      .ok (v.combine operation x y) := by
  cases hFlag : operation.flag? (v.get x) (v.get y) with
  | none =>
      simp [combine, Registers.combine, hFlag,
        Registers.setFlag?]
  | some on =>
      simp [combine, Registers.combine, hFlag,
        Registers.setFlag?]

@[simp] theorem installFont_eq (memory : Memory) :
    installFont memory = .ok memory.installFont :=
  install_eq memory (by decide) (by decide)

------------------------------------------------------------
-- Parts of Instructions
------------------------------------------------------------

namespace State

/- The state of a machine, its call stack laid bare. -/
def ofMachine (m : Machine) : State where
  registers := m.registers
  memory := m.memory
  pc := m.pc
  index := m.index
  stack := .ofCallStack m.stack
  screen := m.screen
  keypad := m.keypad
  clock := m.clock
  random := m.random
  mode := m.mode
  config := m.config

@[simp] theorem setRegister_eq
    (s : State)
    (r value : UInt8) :
    s.setRegister r value =
      .ok
        { s with
          registers :=
            s.registers.set (Nibble.ofByte r) value } := by
  simp [setRegister]

variable (m : Machine)

@[simp] theorem ofMachine_stack :
    (ofMachine m).stack = .ofCallStack m.stack :=
  rfl

@[simp] theorem ofMachine_keypad :
    (ofMachine m).keypad = m.keypad :=
  rfl

@[simp] theorem ofMachine_clock :
    (ofMachine m).clock = m.clock :=
  rfl

@[simp] theorem ofMachine_config :
    (ofMachine m).config = m.config :=
  rfl

@[simp] theorem ofMachine_mode : (ofMachine m).mode = m.mode :=
  rfl

@[simp] theorem holds_ofMachine (condition : Condition) :
    (ofMachine m).holds condition =
      .ok (m.holds condition) := by
  cases condition with
  | equalsByte x byte | differsByte x byte
  | equalsRegister x y | differsRegister x y =>
      simp [holds, Machine.holds, ofMachine]
  | keyHeld x | keyFree x =>
      simp [holds, Machine.holds, ofMachine]

/- A sprite has at most fifteen rows. -/
theorem drawSprite_ofMachine
    (x y : Register)
    (rows : Nibble) :
    (ofMachine m).drawSprite x y rows =
      .ok (ofMachine (m.drawSprite x y rows)) := by
  have hRows : rows.val ≤ 256 := by omega
  have hLength :
      (m.memory.read m.index rows.val).length ≤ 256 := by
    simpa using hRows
  simp [drawSprite, draw_eq _ _ _ hLength,
    Machine.drawSprite, ofMachine]

------------------------------------------------------------
-- Instructions
------------------------------------------------------------

theorem execute_ret :
    (ofMachine m).execute .ret =
      .ok
        (ofMachine m.executeReturn.machine,
          m.executeReturn.result) := by
  rcases m.executeReturn_cases with
    ⟨hEmpty, hReturn⟩ | ⟨a, popped, hPop, hReturn⟩
  · simp [execute, CallStack.pop_empty hEmpty, hReturn,
      Except.map]
  · simp [execute, hPop, hReturn, Except.map, ofMachine]

theorem execute_call (target : Target) :
    (ofMachine m).execute (.call target) =
      .ok
        (ofMachine (m.executeCall target).machine,
          (m.executeCall target).result) := by
  rcases m.executeCall_cases target with
    ⟨hFull, hCall⟩ | ⟨pushed, hPush, hCall⟩
  · simp [execute, CallStack.push_full hFull, hCall,
      Except.map]
  · rw [Machine.following] at hPush
    simp [execute, hPush, hCall, Except.map, ofMachine]

theorem execute_awaitKey (x : Register) :
    (ofMachine m).execute (.awaitKey x) =
      .ok
        (ofMachine (m.executeAwaitKey x).machine,
          (m.executeAwaitKey x).result) := by
  rcases m.executeAwaitKey_cases x with
    ⟨key, hHeld, hAwait⟩ | ⟨hFree, hAwait⟩
  · simp [execute, hHeld, hAwait, Machine.setRegister,
      ofMachine]
  · simp [execute, hFree, hAwait, ofMachine]

/-
  An instruction traps nowhere and does what it does to the
  machine that checks nothing.
-/
@[simp] theorem execute_ofMachine (instruction : Instruction) :
    (ofMachine m).execute instruction =
      .ok
        (ofMachine (m.execute instruction).machine,
          (m.execute instruction).result) := by
  cases instruction with
  | ret => exact execute_ret m
  | call target => exact execute_call m target
  | awaitKey x => exact execute_awaitKey m x
  | clearScreen | jump target | setIndex target
  | unknown word =>
      rfl
  | skipIf condition =>
      simp [execute, Machine.execute]
  | setByte x byte | random x mask | getDelay x =>
      simp [execute, Machine.execute, Machine.setRegister,
        Machine.drawRandom, ofMachine]
  | addByte x byte =>
      simp [execute, Machine.execute, Registers.add, ofMachine]
  | combine operation x y =>
      simp [execute, Machine.execute, ofMachine]
  | jumpOffset target =>
      have hLeast : Nibble.ofByte 0 = Nibble.least := rfl
      simp [execute, Machine.execute, hLeast, ofMachine]
  | draw x y rows =>
      simp [execute, Machine.execute, drawSprite_ofMachine]
  | setDelay x | setSound x =>
      simp [execute, Machine.execute, Machine.setDelay,
        Machine.setSound, ofMachine]
  | addIndex x =>
      simp [execute, Machine.execute, Machine.addIndex,
        ofMachine]
  | pointGlyph x =>
      simp [execute, Machine.execute, Machine.setIndex,
        ofMachine]
  | storeDecimal x =>
      simp [execute, Machine.execute, Machine.write, ofMachine]
  | store x =>
      have hFits : 0 + (x.val + 1) ≤ 16 := by omega
      simp [execute, Machine.execute,
        storeRegisters_eq _ _ _ hFits, Machine.write,
        Registers.leading, ofMachine]
  | load x =>
      have hFits : 0 + (x.val + 1) ≤ 16 := by omega
      simp [execute, Machine.execute,
        loadRegisters_eq _ _ _ hFits, Machine.loadRegisters,
        Registers.setLeading, ofMachine]

------------------------------------------------------------
-- Cycles
------------------------------------------------------------

theorem dispatch_ofMachine :
    (ofMachine m).dispatch =
      .ok
        (ofMachine m.dispatch.machine, m.dispatch.result) := by
  simp only [dispatch, fetch_eq, decode_eq,
    execute_ofMachine, ok_bind, Machine.dispatch,
    Machine.follow_eq]
  rfl

theorem resume_ofMachine (r : Register) :
    (ofMachine m).resume r =
      .ok
        (ofMachine (m.resume r).machine,
          (m.resume r).result) := by
  rcases m.resume_cases r with
    ⟨hFree, hResume⟩ | ⟨key, hHeld, hResume⟩
  · simp [resume, hFree, hResume]
  · simp [resume, hHeld, hResume, ofMachine]

@[simp] theorem cycle_ofMachine :
    (ofMachine m).cycle =
      .ok (ofMachine m.cycle.machine, m.cycle.result) := by
  unfold cycle Machine.cycle
  rw [ofMachine_mode]
  cases m.mode with
  | running => exact dispatch_ofMachine m
  | awaitingKey r => exact resume_ofMachine m r

@[simp] theorem cycles_ofMachine (count : Nat) :
    (ofMachine m).cycles count =
      .ok
        (ofMachine (m.cycles count).machine,
          (m.cycles count).result) := by
  induction count generalizing m with
  | zero => rfl
  | succ count ih =>
      simp [cycles, Machine.cycles, ih]

------------------------------------------------------------
-- Host Actions
------------------------------------------------------------

theorem withClock_ofMachine (clock : TimerClock) :
    { ofMachine m with clock := clock } =
      ofMachine { m with clock := clock } :=
  rfl

/- A program is copied only where it fits behind its start. -/
theorem call_load (program : List UInt8) :
    (ofMachine m).call (.load program) =
      .ok
        (ofMachine (m.load program).machine,
          .loaded (m.load program).result) := by
  unfold State.call Machine.load
  by_cases hFits : program.length ≤ Memory.programLimit
  · have hLimit : Memory.programLimit = 4096 - 0x200 := rfl
    have hEnd : 0x200 + program.length ≤ 4096 := by omega
    simp only [hFits, ↓reduceIte,
      install_eq _ hEnd (by decide), ok_bind]
    rfl
  · simp only [hFits, ↓reduceIte]
    rfl

@[simp] theorem call_ofMachine (call : HostCall) :
    (ofMachine m).call call =
      .ok (ofMachine (m.after call), m.answer call) := by
  cases call with
  | load program => exact call_load m program
  | reset =>
      simp only [State.call, installFont_eq, ok_bind]
      rfl
  | setKey index down => rfl
  | cycle =>
      simp [State.call, Machine.after, Machine.answer]
  | step delta =>
      simp only [State.call]
      rw [ofMachine_config, cycles_ofMachine]
      simp only [ok_bind, ofMachine_clock,
        withClock_ofMachine]
      rw [Machine.after_step, Machine.elapse, Machine.answer,
        Machine.batch]

@[simp] theorem act_ofMachine (action : HostAction) :
    (ofMachine m).act action =
      .ok (ofMachine (m.act action)) := by
  cases action with
  | call call => simp [act, Machine.act]
  | setByte a value => simp [act, Machine.act, ofMachine]
  | setRegister r value =>
      simp [act, Machine.act, Machine.setRegister, ofMachine]
  | jump a | setIndex a => rfl
  | push a pc =>
      cases hPush : m.stack.push a pc with
      | error fault =>
          simp [act, hPush, Machine.act, Machine.pushFrame,
            Except.map]
      | ok stack =>
          simp [act, hPush, Machine.act, Machine.pushFrame,
            Except.map, ofMachine]
  | pop pc =>
      cases hPop : m.stack.pop pc with
      | error fault =>
          simp [act, hPop, Machine.act, Machine.popFrame,
            Except.map]
      | ok taken =>
          simp [act, hPop, Machine.act, Machine.popFrame,
            Except.map, ofMachine]

theorem acts_ofMachine (actions : List HostAction) :
    (ofMachine m).acts actions =
      .ok (ofMachine (m.acts actions)) := by
  induction actions generalizing m with
  | nil => rfl
  | cons action actions ih =>
      simp [acts, Machine.acts, ih]

end State

theorem initial_eq
    (config : Config)
    (random : RandomSource) :
    initial config random =
      .ok (.ofMachine (.initial config random)) := by
  unfold initial
  rw [installFont_eq]
  rfl

------------------------------------------------------------
-- Runs
------------------------------------------------------------

/-
  What a host can read without a trap: registers, bytes and
  words, pixels and keys by any number, and the frames of a
  call stack whose pointer is among its slots.
-/
structure State.ReadsAs
    (s : State)
    (m : Machine) : Prop where
  registers :
    ∀ r,
      getRegister s.registers r =
        .ok (m.registers.get (Nibble.ofByte r))
  bytes : ∀ a, getByte s.memory a = .ok (m.memory.get a)
  words : ∀ a, fetch s.memory a = .ok (m.memory.fetch a)
  pixels :
    ∀ x y, pixel s.screen x y = .ok (m.screen.pixel x y)
  keys : ∀ key, isHeld s.keypad key = .ok (m.keypad.isHeld key)
  frames : s.stack.frames = .ok m.stack.frames
  pointer_le : s.stack.pointer ≤ 16

theorem State.readsAs_ofMachine (m : Machine) :
    (ofMachine m).ReadsAs m where
  registers := getRegister_eq m.registers
  bytes := getByte_eq m.memory
  words := fetch_eq m.memory
  pixels := pixel_eq m.screen
  keys := isHeld_eq m.keypad
  frames := Stack.frames_ofCallStack m.stack
  pointer_le := m.stack.depth_le

/-
  No run traps.  Whatever a host does to a new machine, each
  checked access succeeds, and the state that it leads to is
  the one that the machine is in which checks nothing.  Nor
  does the host trap that reads this state, decodes a word or
  looks up a glyph.
-/
theorem run_never_traps
    (config : Config)
    (random : RandomSource)
    (actions : List HostAction) :
    let m := (Machine.initial config random).acts actions
    run config random actions = .ok (.ofMachine m) ∧
      (State.ofMachine m).ReadsAs m ∧
      (∀ w, decode w = .ok (.decode w)) ∧
      ∀ digit, glyphAddress digit = .ok (Font.address digit) := by
  intro m
  have hRun :
      run config random actions = .ok (.ofMachine m) := by
    unfold run
    rw [initial_eq, ok_bind]
    exact State.acts_ofMachine _ actions
  exact
    ⟨hRun, State.readsAs_ofMachine m, decode_eq,
      glyphAddress_eq⟩

end Checked

end Chip8
