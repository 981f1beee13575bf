import Chip8.Proofs.FaultContainment
import Chip8.Proofs.Footprint

/-
  This file shows where each cycle leaves the program counter:
  at the target of a branch, two or four bytes further, or
  where it was while the machine waits for a key.

  Key definitions include:
    * `Machine.Branches`
    * `Machine.Skips`

  The main statements are:
    * `Machine.goto_iff_branches`
    * `Machine.skip_iff_skips`
    * `Machine.cycle_moves_pc`
-/

------------------------------------------------------------
-- Branches and Skips
------------------------------------------------------------

namespace Chip8

theorem Flow.skipIf_ne_goto
    (condition : Bool)
    (a : UInt16) :
    Flow.skipIf condition ≠ .goto a := by
  cases condition <;> simp [skipIf]

namespace Machine

/-
  Whether a running machine stands at an instruction that
  takes it to an address: a jump, a call while there is room
  for a frame, or a return to the newest frame.
-/
def Branches
    (m : Machine)
    (a : UInt16) : Prop :=
  m.mode = .running ∧
    ((∃ target,
        m.current = .jump target ∧ a = target.toAddress) ∨
      (∃ target,
        m.current = .jumpOffset target ∧
          a =
            target.toAddress +
              UInt16.ofNat
                (m.registers.get Nibble.least).toNat) ∨
      (∃ target,
        m.current = .call target ∧
          m.stack.frames.length < 16 ∧
          a = target.toAddress) ∨
      (m.current = .ret ∧
        m.stack.frames.getLast? = some a))

/-
  Whether a running machine stands at a word of a skip whose
  condition holds.
-/
def Skips (m : Machine) : Prop :=
  let w := m.fetched
  let vx := m.registers.get w.x
  let vy := m.registers.get w.y
  m.mode = .running ∧
    ((w.family.val = 0x3 ∧ vx = w.constant) ∨
      (w.family.val = 0x4 ∧ vx ≠ w.constant) ∨
      (w.family.val = 0x5 ∧ vx = vy) ∨
      (w.family.val = 0x9 ∧ vx ≠ vy) ∨
      (w.IsKey 0x9E ∧ m.keypad.isHeld vx = true) ∨
      (w.IsKey 0xA1 ∧ m.keypad.isHeld vx = false))

variable {m : Machine}

/- No instruction moves the program counter by itself. -/
theorem pc_execute
    (m : Machine)
    (instruction : Instruction) :
    (m.execute instruction).machine.pc = m.pc := by
  cases instruction with
  | ret =>
      exact congrArg (·.pc) m.executeReturn_frame
  | call target =>
      exact congrArg (·.pc) (m.executeCall_frame target)
  | awaitKey x =>
      exact congrArg (·.pc) (m.executeAwaitKey_frame x)
  | _ => rfl

------------------------------------------------------------
-- Where Flows Lead
------------------------------------------------------------

/- A return goes to the newest frame, if there is one. -/
theorem executeReturn_goto_iff
    (m : Machine)
    (a : UInt16) :
    m.executeReturn.result = .goto a ↔
      m.stack.frames.getLast? = some a := by
  rcases m.executeReturn_cases with
    ⟨hEmpty, hEq⟩ | ⟨newest, popped, hPop, hEq⟩
  · have hFrames : m.stack.frames = [] := by
      rw [← List.length_eq_zero_iff]
      simpa using hEmpty
    rw [hEq, hFrames]
    exact ⟨nofun, nofun⟩
  · rw [hEq, CallStack.frames_pop hPop, List.getLast?_concat]
    constructor
    · intro hGoto
      rw [Flow.goto.inj hGoto]
    · intro hNewest
      rw [← Option.some.inj hNewest]
      rfl

/- A call goes to its target while there is room for a frame. -/
theorem executeCall_goto_iff
    (m : Machine)
    (target : Target)
    (a : UInt16) :
    (m.executeCall target).result = .goto a ↔
      m.stack.frames.length < 16 ∧ a = target.toAddress := by
  rw [m.stack.length_frames]
  rcases m.executeCall_cases target with
    ⟨hFull, hEq⟩ | ⟨pushed, hPush, hEq⟩
  · rw [hEq, hFull]
    constructor
    · nofun
    · rintro ⟨hRoom, _⟩
      exact absurd hRoom (Nat.lt_irrefl 16)
  · have hRoom : m.stack.depth < 16 := by
      have hNotFull := depth_ne_of_push hPush
      have hLe := m.stack.depth_le
      omega
    rw [hEq]
    constructor
    · intro hGoto
      exact ⟨hRoom, (Flow.goto.inj hGoto).symm⟩
    · rintro ⟨_, rfl⟩
      rfl

/- A running machine goes to an address where it branches. -/
theorem goto_iff_branches
    (hMode : m.mode = .running)
    (a : UInt16) :
    (m.execute m.current).result = .goto a ↔
      m.Branches a := by
  constructor
  · intro hGoto
    refine ⟨hMode, ?_⟩
    generalize m.current = instruction at hGoto
    cases instruction with
    | jump target =>
        have hTarget := Flow.goto.inj hGoto
        exact Or.inl ⟨target, rfl, hTarget.symm⟩
    | jumpOffset target =>
        have hTarget := Flow.goto.inj hGoto
        exact Or.inr (Or.inl ⟨target, rfl, hTarget.symm⟩)
    | call target =>
        have hCall := (m.executeCall_goto_iff target a).mp hGoto
        exact Or.inr (Or.inr (Or.inl ⟨target, rfl, hCall⟩))
    | ret =>
        have hNewest := (m.executeReturn_goto_iff a).mp hGoto
        exact Or.inr (Or.inr (Or.inr ⟨rfl, hNewest⟩))
    | skipIf condition =>
        exact absurd hGoto (Flow.skipIf_ne_goto _ _)
    | awaitKey x =>
        rw [execute] at hGoto
        rcases m.executeAwaitKey_cases x with
          ⟨key, _, hEq⟩ | ⟨_, hEq⟩
        all_goals
          rw [hEq] at hGoto
          cases hGoto
    | _ => cases hGoto
  · rintro ⟨_, ⟨target, hCurrent, rfl⟩ |
      ⟨target, hCurrent, rfl⟩ | ⟨target, hCurrent, hCall⟩ |
      ⟨hCurrent, hNewest⟩⟩
    · rw [hCurrent]
      rfl
    · rw [hCurrent]
      rfl
    · rw [hCurrent]
      exact (m.executeCall_goto_iff target a).mpr hCall
    · rw [hCurrent]
      exact (m.executeReturn_goto_iff a).mpr hNewest

/- Nothing but a conditional skip can pass over a word. -/
theorem execute_skip_iff
    (m : Machine)
    (instruction : Instruction) :
    (m.execute instruction).result = .skip ↔
      ∃ condition,
        instruction = .skipIf condition ∧
          m.holds condition = true := by
  constructor
  · intro hSkip
    cases instruction with
    | skipIf condition =>
        refine ⟨condition, rfl, ?_⟩
        cases hHolds : m.holds condition with
        | true => rfl
        | false =>
            rw [execute, hHolds] at hSkip
            cases hSkip
    | ret =>
        rw [execute] at hSkip
        rcases m.executeReturn_cases with
          ⟨_, hEq⟩ | ⟨newest, popped, _, hEq⟩
        all_goals
          rw [hEq] at hSkip
          cases hSkip
    | call target =>
        rw [execute] at hSkip
        rcases m.executeCall_cases target with
          ⟨_, hEq⟩ | ⟨pushed, _, hEq⟩
        all_goals
          rw [hEq] at hSkip
          cases hSkip
    | awaitKey x =>
        rw [execute] at hSkip
        rcases m.executeAwaitKey_cases x with
          ⟨key, _, hEq⟩ | ⟨_, hEq⟩
        all_goals
          rw [hEq] at hSkip
          cases hSkip
    | _ => cases hSkip
  · rintro ⟨condition, rfl, hHolds⟩
    rw [execute, hHolds]
    rfl

/- A running machine skips where the condition of a skip holds. -/
theorem skip_iff_skips
    (hMode : m.mode = .running) :
    (m.execute m.current).result = .skip ↔ m.Skips := by
  rw [execute_skip_iff]
  constructor
  · rintro ⟨condition, hCurrent, hHolds⟩
    have hForm := hasForm_of_current hCurrent
    refine ⟨hMode, ?_⟩
    cases condition with
    | equalsByte x byte =>
        rcases hForm with ⟨hFamily, rfl, rfl⟩
        exact Or.inl ⟨hFamily, of_decide_eq_true hHolds⟩
    | differsByte x byte =>
        rcases hForm with ⟨hFamily, rfl, rfl⟩
        have hDiffer := of_decide_eq_true hHolds
        exact Or.inr (Or.inl ⟨hFamily, hDiffer⟩)
    | equalsRegister x y =>
        rcases hForm with ⟨hFamily, rfl, rfl⟩
        have hEqual := of_decide_eq_true hHolds
        exact Or.inr (Or.inr (Or.inl ⟨hFamily, hEqual⟩))
    | differsRegister x y =>
        rcases hForm with ⟨hFamily, rfl, rfl⟩
        have hDiffer := of_decide_eq_true hHolds
        exact
          Or.inr (Or.inr (Or.inr (Or.inl ⟨hFamily, hDiffer⟩)))
    | keyHeld x =>
        rcases hForm with ⟨hKey, rfl⟩
        exact
          Or.inr
            (Or.inr (Or.inr (Or.inr (Or.inl ⟨hKey, hHolds⟩))))
    | keyFree x =>
        rcases hForm with ⟨hKey, rfl⟩
        have hFree := Bool.not_eq_eq_eq_not.mp hHolds
        exact
          Or.inr
            (Or.inr (Or.inr (Or.inr (Or.inr ⟨hKey, hFree⟩))))
  · rintro ⟨_, ⟨hFamily, hEqual⟩ | ⟨hFamily, hDiffer⟩ |
      ⟨hFamily, hEqual⟩ | ⟨hFamily, hDiffer⟩ | ⟨hKey, hHeld⟩ |
      ⟨hKey, hFree⟩⟩
    · exact
        ⟨.equalsByte _ _,
          Instruction.decode_of_hasForm ⟨hFamily, rfl, rfl⟩
            nofun,
          decide_eq_true hEqual⟩
    · exact
        ⟨.differsByte _ _,
          Instruction.decode_of_hasForm ⟨hFamily, rfl, rfl⟩
            nofun,
          decide_eq_true hDiffer⟩
    · exact
        ⟨.equalsRegister _ _,
          Instruction.decode_of_hasForm ⟨hFamily, rfl, rfl⟩
            nofun,
          decide_eq_true hEqual⟩
    · exact
        ⟨.differsRegister _ _,
          Instruction.decode_of_hasForm ⟨hFamily, rfl, rfl⟩
            nofun,
          decide_eq_true hDiffer⟩
    · exact
        ⟨.keyHeld _,
          Instruction.decode_of_hasForm ⟨hKey, rfl⟩ nofun,
          hHeld⟩
    · exact
        ⟨.keyFree _,
          Instruction.decode_of_hasForm ⟨hKey, rfl⟩ nofun,
          Bool.not_eq_eq_eq_not.mpr hFree⟩

------------------------------------------------------------
-- Cycles
------------------------------------------------------------

theorem pc_dispatch (m : Machine) :
    m.dispatch.machine.pc =
      (m.execute m.current).result.destination m.pc := by
  rw [machine_dispatch, pc_execute]

/-
  How a cycle can end: the machine waits for a key that is not
  held, it has branched, or it is at one of the two words that
  follow.
-/
theorem cycle_pc_cases (m : Machine) :
    (m.cycle.result = none ∧
      (∀ a, ¬ m.Branches a) ∧
      m.cycle.machine.pc = m.pc ∧
      (∃ r, m.cycle.machine.mode = .awaitingKey r) ∧
      m.cycle.machine.keypad.firstHeld = none) ∨
    (m.cycle.result ≠ none ∧
      m.Branches m.cycle.machine.pc) ∨
    (m.cycle.result ≠ none ∧
      (∀ a, ¬ m.Branches a) ∧
      ((m.Skips ∧ m.cycle.machine.pc = m.pc + 4) ∨
        (¬ m.Skips ∧ m.cycle.machine.pc = m.pc + 2))) := by
  cases hMode : m.mode with
  | running =>
      rw [cycle_running hMode, pc_dispatch]
      cases hFlow : (m.execute m.current).result with
      | wait =>
          rcases execute_wait hFlow with ⟨x, hAwait, hNone⟩
          rcases m.executeAwaitKey_cases x with
            ⟨key, hKey, _⟩ | ⟨_, hEq⟩
          · rw [hNone] at hKey
            cases hKey
          · have hMachine :
                m.dispatch.machine =
                  { m with mode := .awaitingKey x } := by
              rw [machine_dispatch, hAwait, execute, hEq]
              rfl
            rw [hMachine]
            refine Or.inl ⟨?_, ?_, rfl, ⟨x, rfl⟩, hNone⟩
            · exact if_pos hFlow
            · intro a hBranches
              rw [← goto_iff_branches hMode, hFlow] at hBranches
              cases hBranches
      | goto a =>
          have hBranches := (goto_iff_branches hMode a).mp hFlow
          refine Or.inr (Or.inl ⟨?_, hBranches⟩)
          simp [dispatch, hFlow]
      | skip =>
          have hSkips := (skip_iff_skips hMode).mp hFlow
          refine
            Or.inr (Or.inr ⟨?_, ?_, Or.inl ⟨hSkips, rfl⟩⟩)
          · simp [dispatch, hFlow]
          · intro a hBranches
            rw [← goto_iff_branches hMode, hFlow] at hBranches
            cases hBranches
      | next =>
          refine Or.inr (Or.inr ⟨?_, ?_, Or.inr ⟨?_, rfl⟩⟩)
          · simp [dispatch, hFlow]
          · intro a hBranches
            rw [← goto_iff_branches hMode, hFlow] at hBranches
            cases hBranches
          · intro hSkips
            rw [← skip_iff_skips hMode, hFlow] at hSkips
            cases hSkips
  | awaitingKey r =>
      have hParked : m.mode ≠ .running := by
        intro hRunning
        rw [hMode] at hRunning
        cases hRunning
      have hStraight : ∀ a, ¬ m.Branches a := by
        intro a hBranches
        exact hParked hBranches.1
      rw [cycle_awaiting hMode]
      rcases m.resume_cases r with
        ⟨hNone, hEq⟩ | ⟨key, _, hEq⟩
      · rw [hEq]
        exact Or.inl ⟨rfl, hStraight, rfl, ⟨r, hMode⟩, hNone⟩
      · rw [hEq]
        refine
          Or.inr
            (Or.inr
              ⟨Option.some_ne_none _, hStraight,
                Or.inr ⟨?_, rfl⟩⟩)
        intro hSkips
        exact hParked hSkips.1

theorem branches_unique
    {a b : UInt16}
    (ha : m.Branches a)
    (hb : m.Branches b) :
    a = b := by
  have hGoto := (goto_iff_branches ha.1 a).mpr ha
  rw [(goto_iff_branches hb.1 b).mpr hb] at hGoto
  exact (Flow.goto.inj hGoto).symm

/-
  The program counter stays where it is exactly if the machine
  waits for a key that is not held, or branches to where it
  stands.  A branch leads to its target.  Every other cycle
  moves on by one word, or by two if it skips one.
-/
theorem cycle_moves_pc (m : Machine) :
    let after := m.cycle.machine
    (after.pc = m.pc ↔
      m.cycle.result = none ∨ m.Branches m.pc) ∧
    (m.cycle.result = none →
      (∃ r, after.mode = .awaitingKey r) ∧
        ∀ key, after.keypad.isHeld key = false) ∧
    (∀ a, m.Branches a → after.pc = a) ∧
    (m.cycle.result ≠ none →
      (∀ a, ¬ m.Branches a) →
      (m.Skips → after.pc = m.pc + 4) ∧
        (¬ m.Skips → after.pc = m.pc + 2)) := by
  intro after
  rcases m.cycle_pc_cases with
    ⟨hNone, hStraight, hStays, hWaits, hFree⟩ |
      ⟨hSome, hBranches⟩ | ⟨hSome, hStraight, hMoves⟩
  · refine ⟨?_, ?_, ?_, ?_⟩
    · exact ⟨fun _ => Or.inl hNone, fun _ => hStays⟩
    · intro _
      exact ⟨hWaits, Keypad.isHeld_of_firstHeld hFree⟩
    · intro a hBranches
      exact absurd hBranches (hStraight a)
    · intro hSome
      exact absurd hNone hSome
  · refine ⟨?_, ?_, ?_, ?_⟩
    · constructor
      · intro hStays
        rw [← hStays]
        exact Or.inr hBranches
      · rintro (hNone | hBack)
        · exact absurd hNone hSome
        · exact branches_unique hBranches hBack
    · intro hNone
      exact absurd hNone hSome
    · intro a hTarget
      exact branches_unique hBranches hTarget
    · intro _ hStraight
      exact absurd hBranches (hStraight _)
  · have hMoved : after.pc ≠ m.pc := by
      rcases hMoves with ⟨_, hTwo⟩ | ⟨_, hOne⟩
      · rw [hTwo]
        simp
      · rw [hOne]
        simp
    refine ⟨?_, ?_, ?_, ?_⟩
    · constructor
      · intro hStays
        exact absurd hStays hMoved
      · rintro (hNone | hBack)
        · exact absurd hNone hSome
        · exact absurd hBack (hStraight _)
    · intro hNone
      exact absurd hNone hSome
    · intro a hBranches
      exact absurd hBranches (hStraight a)
    · intro _ _
      rcases hMoves with ⟨hSkips, hTwo⟩ | ⟨hPasses, hOne⟩
      · exact ⟨fun _ => hTwo, fun h => absurd hSkips h⟩
      · exact ⟨fun h => absurd h hPasses, fun _ => hOne⟩

/- A machine at a call of the address where it stands. -/
def callingItself : Machine :=
  { initial {} (.ofSeed 7) with
    memory := Memory.blank.write 0 [0x20, 0x00]
    pc := 0 }

/- The call is taken and the program counter stays. -/
theorem callingItself_stays :
    callingItself.Branches 0 ∧
      callingItself.cycle.machine.pc = 0 ∧
      callingItself.cycle.machine.stack.frames = [2] := by
  have hCall : callingItself.current = .call 0 := by
    decide +kernel
  have hBack : callingItself.Branches 0 := by
    refine ⟨rfl, Or.inr (Or.inr (Or.inl ⟨0, hCall, ?_, rfl⟩))⟩
    decide
  rcases cycle_moves_pc callingItself with ⟨hStays, _⟩
  refine ⟨hBack, hStays.mpr (Or.inr hBack), ?_⟩
  decide +kernel

end Machine

end Chip8
