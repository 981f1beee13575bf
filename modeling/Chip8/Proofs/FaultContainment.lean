import Chip8.Proofs.Dispatch
import Chip8.Proofs.WordForm

/-
  This file shows that faults are contained: an instruction
  that the machine cannot carry out is passed over with one
  warning and has no other effect, and no other cycle warns.

  Key definitions include:
    * `Outcome.warnings`
    * `Machine.complaint?`
    * `Machine.Faults`

  The main statements are:
    * `Machine.notices_execute`
    * `Machine.execute_of_complaint`
    * `Machine.faults_contained`
-/

------------------------------------------------------------
-- Warnings
------------------------------------------------------------

namespace Chip8

/- The notices of an outcome that are warnings. -/
def Outcome.warnings
    {α : Type}
    (outcome : Outcome α) : List Notice :=
  outcome.notices.filter fun notice => notice.level = .warn

namespace Machine

/-
  The warning that an instruction gives where it cannot be
  carried out: a word without a meaning, a return without a
  frame, a call without room for one.
-/
def complaint? (m : Machine) : Instruction → Option Notice
| .unknown word => some (.unsupported word m.pc)
| .ret =>
    if m.stack.depth = 0 then
      some (.returnSkipped (.stackUnderflow m.pc))
    else
      none
| .call target =>
    if m.stack.depth = 16 then
      some (.callSkipped (.stackOverflow m.pc) target)
    else
      none
| _ => none

/-
  A running machine that stands at a word without a meaning,
  at a return while no frame is on the stack, or at a call
  while sixteen are.
-/
def Faults (m : Machine) : Prop :=
  m.mode = .running ∧
    ((∃ word, m.current = .unknown word) ∨
      (m.fetched = 0x00EE ∧ m.stack.frames = []) ∨
      (m.fetched.family.val = 0x2 ∧
        m.stack.frames.length = 16))

variable {m : Machine}

theorem depth_ne_of_pop
    {pc a : UInt16}
    {popped : CallStack}
    (hPop : m.stack.pop pc = .ok (a, popped)) :
    m.stack.depth ≠ 0 := by
  intro hEmpty
  rw [CallStack.pop_empty hEmpty] at hPop
  cases hPop

theorem depth_ne_of_push
    {pc a : UInt16}
    {pushed : CallStack}
    (hPush : m.stack.push a pc = .ok pushed) :
    m.stack.depth ≠ 16 := by
  intro hFull
  rw [CallStack.push_full hFull] at hPush
  cases hPush

------------------------------------------------------------
-- Complaints
------------------------------------------------------------

theorem complaint_ret_of_empty
    (hEmpty : m.stack.depth = 0) :
    m.complaint? .ret =
      some (.returnSkipped (.stackUnderflow m.pc)) :=
  if_pos hEmpty

theorem complaint_ret_of_frame
    (hFrame : m.stack.depth ≠ 0) :
    m.complaint? .ret = none :=
  if_neg hFrame

theorem complaint_call_of_full
    (target : Target)
    (hFull : m.stack.depth = 16) :
    m.complaint? (.call target) =
      some (.callSkipped (.stackOverflow m.pc) target) :=
  if_pos hFull

theorem complaint_call_of_room
    (target : Target)
    (hRoom : m.stack.depth ≠ 16) :
    m.complaint? (.call target) = none :=
  if_neg hRoom

/- There are three complaints, each of one instruction. -/
theorem complaint_cases
    {instruction : Instruction}
    {warning : Notice}
    (hComplaint :
      m.complaint? instruction = some warning) :
    (∃ word,
      instruction = .unknown word ∧
      warning = .unsupported word m.pc) ∨
    (instruction = .ret ∧
      m.stack.depth = 0 ∧
      warning = .returnSkipped (.stackUnderflow m.pc)) ∨
    ∃ target,
      instruction = .call target ∧
      m.stack.depth = 16 ∧
      warning =
        .callSkipped (.stackOverflow m.pc) target := by
  cases instruction with
  | unknown word =>
      have hWarning := Option.some.inj hComplaint
      exact Or.inl ⟨word, rfl, hWarning.symm⟩
  | ret =>
      by_cases hEmpty : m.stack.depth = 0
      · rw [complaint_ret_of_empty hEmpty] at hComplaint
        have hWarning := Option.some.inj hComplaint
        exact Or.inr (Or.inl ⟨rfl, hEmpty, hWarning.symm⟩)
      · rw [complaint_ret_of_frame hEmpty] at hComplaint
        cases hComplaint
  | call target =>
      by_cases hFull : m.stack.depth = 16
      · rw [complaint_call_of_full target hFull]
          at hComplaint
        have hWarning := Option.some.inj hComplaint
        exact
          Or.inr
            (Or.inr ⟨target, rfl, hFull, hWarning.symm⟩)
      · rw [complaint_call_of_room target hFull]
          at hComplaint
        cases hComplaint
  | _ => cases hComplaint

theorem level_of_complaint
    {instruction : Instruction}
    {warning : Notice}
    (hComplaint :
      m.complaint? instruction = some warning) :
    warning.level = .warn := by
  rcases complaint_cases hComplaint with
    ⟨word, _, rfl⟩ | ⟨_, _, rfl⟩ | ⟨target, _, _, rfl⟩
  · rfl
  · rfl
  · rfl

------------------------------------------------------------
-- Instructions
------------------------------------------------------------

/- An instruction gives its complaint and nothing else. -/
theorem notices_execute
    (m : Machine)
    (instruction : Instruction) :
    (m.execute instruction).notices =
      (m.complaint? instruction).toList := by
  cases instruction with
  | ret =>
      rw [execute]
      rcases m.executeReturn_cases with
        ⟨hEmpty, hEq⟩ | ⟨a, popped, hPop, hEq⟩
      · rw [hEq, complaint_ret_of_empty hEmpty]
        rfl
      · rw [hEq,
          complaint_ret_of_frame (depth_ne_of_pop hPop)]
        rfl
  | call target =>
      rw [execute]
      rcases m.executeCall_cases target with
        ⟨hFull, hEq⟩ | ⟨pushed, hPush, hEq⟩
      · rw [hEq, complaint_call_of_full target hFull]
        rfl
      · rw [hEq,
          complaint_call_of_room target
            (depth_ne_of_push hPush)]
        rfl
  | awaitKey x =>
      rw [execute]
      rcases m.executeAwaitKey_cases x with
        ⟨key, _, hEq⟩ | ⟨_, hEq⟩
      · rw [hEq]
        rfl
      · rw [hEq]
        rfl
  | _ => rfl

/- An instruction with a complaint leaves the machine alone. -/
theorem execute_of_complaint
    {instruction : Instruction}
    {warning : Notice}
    (hComplaint :
      m.complaint? instruction = some warning) :
    m.execute instruction = ⟨m, .next, [warning]⟩ := by
  rcases complaint_cases hComplaint with
    ⟨word, rfl, rfl⟩ | ⟨rfl, hEmpty, rfl⟩ |
      ⟨target, rfl, hFull, rfl⟩
  · rfl
  · rcases m.executeReturn_cases with
      ⟨_, hEq⟩ | ⟨a, popped, hPop, _⟩
    · exact hEq
    · exact absurd hEmpty (depth_ne_of_pop hPop)
  · rcases m.executeCall_cases target with
      ⟨_, hEq⟩ | ⟨pushed, hPush, _⟩
    · exact hEq
    · exact absurd hFull (depth_ne_of_push hPush)

------------------------------------------------------------
-- Cycles
------------------------------------------------------------

/- The trace of a dispatch is no warning, so it hides none. -/
theorem warnings_dispatch (m : Machine) :
    m.dispatch.warnings =
      (m.complaint? m.current).toList := by
  have hNotices :
      m.dispatch.notices =
        .dispatched m.pc m.current ::
          (m.complaint? m.current).toList := by
    simp [dispatch, notices_execute]
  unfold Outcome.warnings
  rw [hNotices]
  cases hComplaint : m.complaint? m.current with
  | none => rfl
  | some warning =>
      have hLevel := level_of_complaint hComplaint
      have hTrace :
          (Notice.dispatched m.pc m.current).level = .trace :=
        rfl
      simp [hLevel, hTrace]

theorem warnings_resume
    (m : Machine)
    (r : Register) :
    (m.resume r).warnings = [] := by
  rcases m.resume_cases r with ⟨_, hEq⟩ | ⟨key, _, hEq⟩
  · rw [hEq]
    rfl
  · rw [hEq]
    rfl

/- The machine faults where the current instruction complains. -/
theorem faults_iff_complaint
    (hMode : m.mode = .running) :
    m.Faults ↔ (m.complaint? m.current).isSome := by
  have hLength := m.stack.length_frames
  constructor
  · rintro ⟨_, ⟨word, hUnknown⟩ | ⟨hWord, hEmpty⟩ |
      ⟨hFamily, hFull⟩⟩
    · rw [hUnknown]
      rfl
    · have hRet : m.current = .ret := by
        unfold current
        rw [hWord]
        rfl
      have hDepth : m.stack.depth = 0 := by
        rw [← hLength, hEmpty]
        rfl
      rw [hRet, complaint_ret_of_empty hDepth]
      rfl
    · have hCall : m.current = .call m.fetched.target :=
        Instruction.decode_call hFamily
      have hDepth : m.stack.depth = 16 := by
        rw [← hLength, hFull]
      rw [hCall, complaint_call_of_full _ hDepth]
      rfl
  · intro hComplaint
    rcases Option.isSome_iff_exists.mp hComplaint with
      ⟨warning, hWarning⟩
    have hForm := Instruction.hasForm_decode m.fetched
    change m.current.HasForm m.fetched at hForm
    refine ⟨hMode, ?_⟩
    rcases complaint_cases hWarning with
      ⟨word, hUnknown, _⟩ | ⟨hRet, hEmpty, _⟩ |
        ⟨target, hCall, hFull, _⟩
    · exact Or.inl ⟨word, hUnknown⟩
    · rw [hRet] at hForm
      rw [hEmpty] at hLength
      have hFrames := List.length_eq_zero_iff.mp hLength
      exact Or.inr (Or.inl ⟨hForm, hFrames⟩)
    · rw [hCall] at hForm
      rw [hFull] at hLength
      exact Or.inr (Or.inr ⟨hForm.1, hLength⟩)

theorem cycle_of_faults (hFaults : m.Faults) :
    m.cycle.result = some m.current ∧
      m.cycle.machine = { m with pc := m.pc + 2 } ∧
      ∃ warning, m.cycle.warnings = [warning] := by
  have hMode := hFaults.1
  have hSome := (faults_iff_complaint hMode).mp hFaults
  rcases Option.isSome_iff_exists.mp hSome with
    ⟨warning, hComplaint⟩
  have hEq := execute_of_complaint hComplaint
  rw [cycle_running hMode]
  refine ⟨?_, ?_, warning, ?_⟩
  · simp [dispatch, hEq]
  · rw [machine_dispatch, hEq]
    rfl
  · rw [warnings_dispatch, hComplaint]
    rfl

theorem warnings_cycle (m : Machine) :
    m.cycle.warnings = [] ∨ m.Faults := by
  cases hMode : m.mode with
  | running =>
      rw [cycle_running hMode, warnings_dispatch]
      cases hComplaint : m.complaint? m.current with
      | none => exact Or.inl rfl
      | some warning =>
          apply Or.inr
          apply (faults_iff_complaint hMode).mpr
          rw [hComplaint]
          rfl
  | awaitingKey r =>
      apply Or.inl
      rw [cycle_awaiting hMode]
      exact m.warnings_resume r

/-
  A machine that faults completes the instruction with one
  warning and has only moved on to the next one.  A cycle
  that warns begins at a machine that faults, and no cycle
  warns twice.
-/
theorem faults_contained (m : Machine) :
    (m.Faults →
      m.cycle.result = some (.decode m.fetched) ∧
        m.cycle.machine = { m with pc := m.pc + 2 } ∧
        ∃ warning, m.cycle.warnings = [warning]) ∧
      (m.cycle.warnings ≠ [] → m.Faults) ∧
      m.cycle.warnings.length ≤ 1 := by
  rcases m.warnings_cycle with hSilent | hFaults
  · refine ⟨cycle_of_faults, ?_, ?_⟩
    · intro hWarns
      exact absurd hSilent hWarns
    · rw [hSilent]
      exact Nat.zero_le 1
  · refine ⟨cycle_of_faults, ?_, ?_⟩
    · intro _
      exact hFaults
    · rcases cycle_of_faults hFaults with
        ⟨_, _, warning, hOne⟩
      rw [hOne]
      exact Nat.le_refl 1

/-
  A machine at a call of 0x300 whose call stack holds sixteen
  times the address 0x202.
-/
def seventeenthCall : Machine :=
  { initial {} (.ofSeed 7) with
    memory := Memory.blank.write 0 [0x23, 0x00]
    pc := 0
    stack :=
      { slots := .fill 16 0x202
        depth := 16
        depth_le := Nat.le_refl 16 } }

/- The call is passed over and the frames stay. -/
theorem seventeenthCall_contained :
    seventeenthCall.Faults ∧
      seventeenthCall.cycle.result = some (.call 0x300) ∧
      seventeenthCall.cycle.machine.pc = 2 ∧
      seventeenthCall.cycle.machine.stack =
        seventeenthCall.stack ∧
      ∃ warning,
        seventeenthCall.cycle.warnings = [warning] := by
  have hFaults : seventeenthCall.Faults := by
    refine ⟨rfl, Or.inr (Or.inr ⟨?_, ?_⟩)⟩
    · decide +kernel
    · decide +kernel
  have hCall :
      Instruction.decode seventeenthCall.fetched =
        .call 0x300 := by
    decide +kernel
  rcases (faults_contained seventeenthCall).1 hFaults with
    ⟨hResult, hMachine, hWarning⟩
  refine ⟨hFaults, ?_, ?_, ?_, hWarning⟩
  · rw [hResult, hCall]
  · rw [hMachine]
    rfl
  · rw [hMachine]

end Machine

end Chip8
