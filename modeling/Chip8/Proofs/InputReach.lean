import Chip8.Proofs.Footprint
import Chip8.Proofs.HostRun

/-
  This file shows that what the host tells about keys and time
  reaches the program only through the words that read it.
  Two runs that differ in nothing else cannot be told apart
  inside the machine while the first carries out no such word.

  Key definitions include:
    * `Word.ReadsInput`, `Machine.IgnoresInput`
    * `HostCall.request?`, `Machine.requested`
    * `Machine.withInput`, `Machine.withoutInput`

  The main statements are:
    * `Machine.execute_withInput`
    * `Machine.call_withInput`
    * `Machine.input_reaches_readers_only`
-/

------------------------------------------------------------
-- Readers
------------------------------------------------------------

namespace Chip8

/- Whether a word reads the delay timer or the keypad. -/
def Word.ReadsInput (w : Word) : Prop :=
  w.IsDevice 0x07 ∨ w.IsDevice 0x0A ∨
    w.IsKey 0x9E ∨ w.IsKey 0xA1

instance (w : Word) : Decidable w.ReadsInput :=
  inferInstanceAs (Decidable (_ ∨ _ ∨ _ ∨ _))

/- Whether an instruction reads the delay timer or the keypad. -/
def Instruction.ReadsInput : Instruction → Prop
| .getDelay _ | .awaitKey _ => True
| .skipIf (.keyHeld _) | .skipIf (.keyFree _) => True
| _ => False

theorem Word.readsInput_of_hasForm
    {w : Word}
    {instruction : Instruction}
    (hForm : instruction.HasForm w)
    (hReads : instruction.ReadsInput) :
    w.ReadsInput := by
  cases instruction with
  | getDelay x => exact Or.inl hForm.1
  | awaitKey x => exact Or.inr (Or.inl hForm.1)
  | skipIf condition =>
      cases condition with
      | keyHeld x => exact Or.inr (Or.inr (Or.inl hForm.1))
      | keyFree x => exact Or.inr (Or.inr (Or.inr hForm.1))
      | _ => exact hReads.elim
  | _ => exact hReads.elim

------------------------------------------------------------
-- Requests
------------------------------------------------------------

/- What a call requests, without keys and elapsed time. -/
inductive Request where
  | load (program : List UInt8)
  | reset
  | cycle
  | step

/- The request of a call; a key event makes none. -/
def HostCall.request? : HostCall → Option Request
| .load program => some (.load program)
| .reset => some .reset
| .setKey .. => none
| .cycle => some .cycle
| .step _ => some .step

namespace Machine

/- The machine after each request of a run, with the answer. -/
def requested
    (m : Machine) : List HostCall → List (Machine × Answer)
| [] => []
| call :: calls =>
    match call.request? with
    | some _ =>
        (m.after call, m.answer call) ::
          (m.after call).requested calls
    | none => (m.after call).requested calls

/- Whether a cycle that begins here carries out no word that
  reads what the host tells. -/
def IgnoresInput (m : Machine) : Prop :=
  m.mode = .running → ¬ m.fetched.ReadsInput

instance (m : Machine) : Decidable m.IgnoresInput :=
  inferInstanceAs (Decidable (_ → _))

/- The machine with another keypad and another clock. -/
def withInput
    (m : Machine)
    (keypad : Keypad)
    (clock : TimerClock) : Machine :=
  { m with
    keypad := keypad
    clock := clock }

/- The machine without what the host has told: every part but
  the keypad and the clock. -/
def withoutInput (m : Machine) : Machine :=
  m.withInput .released .zero

end Machine

/- The outcome with another keypad and another clock. -/
def Outcome.withInput
    {α : Type}
    (outcome : Outcome α)
    (keypad : Keypad)
    (clock : TimerClock) : Outcome α :=
  { outcome with
    machine := outcome.machine.withInput keypad clock }

namespace Machine

variable {m : Machine}

------------------------------------------------------------
-- Cycles
------------------------------------------------------------

/-
  An instruction that reads no input does the same whatever
  the keypad and the clock are, and leaves the keypad alone.
-/
theorem execute_withInput
    {instruction : Instruction}
    (hIgnores : ¬ instruction.ReadsInput)
    (keypad : Keypad)
    (clock : TimerClock) :
    ∃ later,
      (m.withInput keypad clock).execute instruction =
        (m.execute instruction).withInput keypad later := by
  cases instruction with
  | ret =>
      refine ⟨clock, ?_⟩
      simp only [execute, executeReturn, withInput]
      cases m.stack.pop m.pc <;> rfl
  | call target =>
      refine ⟨clock, ?_⟩
      simp only [execute, executeCall, withInput, following]
      cases m.stack.push (m.pc + 2) m.pc <;> rfl
  | skipIf condition =>
      cases condition with
      | keyHeld x | keyFree x => exact absurd trivial hIgnores
      | _ => exact ⟨clock, rfl⟩
  | getDelay x | awaitKey x => exact absurd trivial hIgnores
  | setDelay x =>
      exact ⟨{ clock with delay := m.registers.get x }, rfl⟩
  | setSound x =>
      exact ⟨{ clock with sound := m.registers.get x }, rfl⟩
  | _ => exact ⟨clock, rfl⟩

theorem follow_withInput
    (m : Machine)
    (flow : Flow)
    (keypad : Keypad)
    (clock : TimerClock) :
    (m.withInput keypad clock).follow flow =
      (m.follow flow).withInput keypad clock := by
  cases flow <;> rfl

theorem cycle_withInput
    (hMode : m.mode = .running)
    (hIgnores : m.IgnoresInput)
    (keypad : Keypad)
    (clock : TimerClock) :
    ∃ later,
      (m.withInput keypad clock).cycle =
        m.cycle.withInput keypad later := by
  have hCurrent : ¬ m.current.ReadsInput := by
    intro hReads
    apply hIgnores hMode
    exact
      Word.readsInput_of_hasForm
        (Instruction.hasForm_decode m.fetched) hReads
  rcases execute_withInput (m := m) hCurrent keypad clock with
    ⟨later, hEq⟩
  refine ⟨later, ?_⟩
  have hSame :
      (m.withInput keypad clock).current = m.current :=
    rfl
  have hOther : (m.withInput keypad clock).mode = .running :=
    hMode
  rw [cycle_running hMode, cycle_running hOther]
  simp only [dispatch, hSame, hEq, Outcome.withInput,
    follow_withInput]
  rfl

/- Only a word that reads the keypad makes the machine wait. -/
theorem mode_cycle
    (hMode : m.mode = .running)
    (hIgnores : m.IgnoresInput) :
    m.cycle.machine.mode = .running := by
  rw [cycle_running hMode, machine_dispatch]
  rcases m.mode_execute m.current with
    hKept | ⟨x, hAwait, _, _⟩
  · exact hKept.trans hMode
  · have hForm := hasForm_of_current hAwait
    exact absurd (Or.inr (Or.inl hForm.1)) (hIgnores hMode)

theorem cycles_withInput
    (hMode : m.mode = .running)
    {count : Nat}
    (hIgnores :
      ∀ s ∈ m.cycleStarts count, s.IgnoresInput)
    (keypad : Keypad)
    (clock : TimerClock) :
    (m.cycles count).machine.mode = .running ∧
      ∃ later,
        (m.withInput keypad clock).cycles count =
          (m.cycles count).withInput keypad later := by
  induction count generalizing m clock with
  | zero => exact ⟨hMode, clock, rfl⟩
  | succ count ih =>
      rcases List.forall_mem_cons.mp hIgnores with
        ⟨hFirst, hRest⟩
      rcases cycle_withInput hMode hFirst keypad clock with
        ⟨between, hCycle⟩
      have hNext := mode_cycle hMode hFirst
      rcases ih hNext hRest between with
        ⟨hLast, later, hCycles⟩
      refine ⟨hLast, later, ?_⟩
      simp only [cycles, hCycle, Outcome.withInput]
      simp only [hCycles, Outcome.withInput]

------------------------------------------------------------
-- Calls
------------------------------------------------------------

theorem mode_clock
    (m : Machine)
    (clock : TimerClock) :
    { m with clock := clock }.mode = m.mode :=
  rfl

theorem mode_elapse
    (m : Machine)
    (delta : Float) :
    (m.elapse delta).mode = m.mode := by
  unfold elapse
  rw [mode_clock]

theorem withInput_clock
    (m : Machine)
    (keypad : Keypad)
    (clock time : TimerClock) :
    { m with clock := clock }.withInput keypad time =
      m.withInput keypad time :=
  rfl

/- Elapsed time is input as well. -/
theorem elapse_withInput
    (m : Machine)
    (keypad : Keypad)
    (clock : TimerClock)
    (delta otherDelta : Float) :
    ∃ time,
      (m.withInput keypad clock).elapse otherDelta =
        (m.elapse delta).withInput keypad time := by
  refine ⟨(clock.advance otherDelta).1, ?_⟩
  unfold elapse
  rw [withInput_clock]
  simp only [withInput]

/-
  Two calls with one request, made to machines that differ in
  keypad and clock only, have the same answer and leave
  machines that differ in keypad and clock only.
-/
theorem call_withInput
    (hMode : m.mode = .running)
    {call other : HostCall}
    {request : Request}
    (hCall : call.request? = some request)
    (hOther : other.request? = some request)
    (hIgnores : ∀ s ∈ m.callStarts call, s.IgnoresInput)
    (keypad : Keypad)
    (clock : TimerClock) :
    (m.after call).mode = .running ∧
      (m.withInput keypad clock).answer other =
        m.answer call ∧
      ∃ keys time,
        (m.withInput keypad clock).after other =
          (m.after call).withInput keys time := by
  cases call with
  | load program =>
      obtain rfl := Option.some.inj hCall
      cases other <;> cases hOther
      by_cases hFits :
          program.length ≤ Memory.programLimit
      · simp only [after, answer, load, if_pos hFits]
        exact ⟨trivial, trivial, keypad, clock, rfl⟩
      · simp only [after, answer, load, if_neg hFits]
        exact ⟨hMode, rfl, keypad, clock, rfl⟩
  | reset =>
      obtain rfl := Option.some.inj hCall
      cases other <;> cases hOther
      exact ⟨rfl, rfl, .released, .zero, rfl⟩
  | setKey index down => cases hCall
  | cycle =>
      obtain rfl := Option.some.inj hCall
      cases other <;> cases hOther
      have hThis := hIgnores m (List.mem_singleton_self m)
      rcases cycle_withInput hMode hThis keypad clock with
        ⟨later, hCycle⟩
      refine ⟨mode_cycle hMode hThis, ?_, keypad, later, ?_⟩
      · simp only [answer, hCycle]
        rfl
      · simp only [after, hCycle]
        rfl
  | step delta =>
      obtain rfl := Option.some.inj hCall
      cases other with
      | step otherDelta =>
          rcases cycles_withInput hMode hIgnores keypad
              clock with
            ⟨hLast, later, hCycles⟩
          have hBatch :
              (m.withInput keypad clock).batch = m.batch :=
            rfl
          rw [after_step, after_step, hBatch, hCycles]
          refine ⟨?_, ?_, keypad, ?_⟩
          · rw [mode_elapse]
            exact hLast
          · simp only [answer, hBatch, hCycles]
            rfl
          · exact elapse_withInput _ keypad later _ _
      | _ => cases hOther

theorem requested_cons
    {call : HostCall}
    {request : Request}
    (hCall : call.request? = some request)
    (calls : List HostCall) :
    m.requested (call :: calls) =
      (m.after call, m.answer call) ::
        (m.after call).requested calls := by
  simp only [requested, hCall]

/- A call without a request changes the keypad only. -/
theorem after_of_no_request
    {call : HostCall}
    (hCall : call.request? = none) :
    ∃ keypad, m.after call = m.withInput keypad m.clock := by
  cases call with
  | setKey index down =>
      exact ⟨(m.keypad.set index down).1, rfl⟩
  | load program | reset | cycle | step delta => cases hCall

theorem requested_of_no_request
    {call : HostCall}
    (hCall : call.request? = none)
    (calls : List HostCall) :
    ∃ keypad,
      m.requested (call :: calls) =
        (m.withInput keypad m.clock).requested calls := by
  rcases after_of_no_request (m := m) hCall with
    ⟨keypad, hAfter⟩
  refine ⟨keypad, ?_⟩
  simp only [requested, hCall, hAfter]

/- Key events in front of a run change the keypad only. -/
theorem requested_keys_append
    {keys : List HostCall}
    (hKeys : ∀ call ∈ keys, call.request? = none)
    (calls : List HostCall) :
    ∃ keypad,
      m.requested (keys ++ calls) =
        (m.withInput keypad m.clock).requested calls := by
  induction keys generalizing m with
  | nil => exact ⟨m.keypad, rfl⟩
  | cons call keys ih =>
      rcases List.forall_mem_cons.mp hKeys with
        ⟨hFirst, hRest⟩
      rcases requested_of_no_request (m := m) hFirst
          (keys ++ calls) with
        ⟨between, hEq⟩
      rcases ih (m := m.withInput between m.clock) hRest with
        ⟨keypad, hRequested⟩
      exact ⟨keypad, hEq.trans hRequested⟩

------------------------------------------------------------
-- Runs
------------------------------------------------------------

/- What is left of an entry of a run without the input. -/
def hideInput (entry : Machine × Answer) : Machine × Answer :=
  (entry.1.withoutInput, entry.2)

theorem requested_withInput
    (hMode : m.mode = .running)
    {calls others : List HostCall}
    (hRequests :
      calls.filterMap HostCall.request? =
        others.filterMap HostCall.request?)
    (hIgnores : ∀ s ∈ m.starts calls, s.IgnoresInput)
    (keypad : Keypad)
    (clock : TimerClock) :
    (m.requested calls).map hideInput =
      ((m.withInput keypad clock).requested others).map
        hideInput := by
  induction calls generalizing m others keypad clock with
  | nil =>
      have hKeys :
          ∀ call ∈ others, call.request? = none :=
        List.filterMap_eq_nil_iff.mp hRequests.symm
      rcases requested_keys_append
          (m := m.withInput keypad clock) hKeys [] with
        ⟨_, hOthers⟩
      rw [List.append_nil] at hOthers
      rw [hOthers]
      rfl
  | cons call calls ih =>
      rcases List.forall_mem_append.mp hIgnores with
        ⟨hCallIgnores, hLater⟩
      cases hCall : call.request? with
      | none =>
          rcases after_of_no_request (m := m) hCall with
            ⟨keys, hAfter⟩
          rw [List.filterMap_cons_none hCall] at hRequests
          rw [hAfter] at hLater
          simp only [requested, hCall, hAfter]
          exact
            ih (m := m.withInput keys m.clock) hMode
              hRequests hLater keypad clock
      | some request =>
          rw [List.filterMap_cons_some hCall] at hRequests
          rcases List.filterMap_eq_cons_iff.mp
              hRequests.symm with
            ⟨keys, other, rest, rfl, hKeys, hOther, hRest⟩
          rcases requested_keys_append
              (m := m.withInput keypad clock) hKeys
              (other :: rest) with
            ⟨held, hOthers⟩
          rcases call_withInput hMode hCall hOther
              hCallIgnores held clock with
            ⟨hNext, hAnswer, keysAfter, timeAfter, hAfter⟩
          have hTail :=
            ih hNext hRest.symm hLater keysAfter timeAfter
          rw [← hAfter] at hTail
          have hHead :
              hideInput (m.after call, m.answer call) =
                hideInput
                  ((m.withInput held clock).after other,
                    (m.withInput held clock).answer other) := by
            rw [hAnswer, hAfter]
            rfl
          rw [hOthers, requested_cons hCall]
          change
            _ =
              ((m.withInput held clock).requested
                (other :: rest)).map hideInput
          rw [requested_cons hOther, List.map_cons,
            List.map_cons, hHead, hTail]

/-
  Of two runs from one running machine that make the same
  requests, with other times and with key events at other
  places, the first carries out no word that reads the delay
  timer or the keypad.  Then after each request all parts of
  the machines but the keypad and the clock agree, and so do
  the answers.
-/
theorem input_reaches_readers_only
    (hMode : m.mode = .running)
    {calls others : List HostCall}
    (hRequests :
      calls.filterMap HostCall.request? =
        others.filterMap HostCall.request?)
    (hIgnores : ∀ s ∈ m.starts calls, s.IgnoresInput) :
    (m.requested calls).map hideInput =
      (m.requested others).map hideInput :=
  requested_withInput hMode hRequests hIgnores m.keypad
    m.clock

/- A machine in a loop that sets the delay timer to sixty. -/
def winding : Machine :=
  { initial ⟨1⟩ (.ofSeed 7) with
    memory :=
      Memory.blank.write 0
        [0x61, 0x3C, 0xF1, 0x15, 0x10, 0x00]
    pc := 0 }

/- Twenty milliseconds and a held key make no difference. -/
theorem winding_unmoved :
    (winding.requested
          [.cycle, .step (.ofBits 0), .cycle]).map
        hideInput =
      (winding.requested
          [.setKey 3 true, .cycle, .setKey 20 true,
            .step (.ofBits 0x4034000000000000),
            .cycle]).map hideInput := by
  have hMode : winding.mode = .running := rfl
  apply input_reaches_readers_only hMode
  · rfl
  · decide +kernel

end Machine

end Chip8
