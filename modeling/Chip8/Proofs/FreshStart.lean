import Chip8.Proofs.Footprint
import Chip8.Proofs.HostAccess

/-
  This file shows that a reset forgets everything that the
  host and the program have done, but for how far the random
  stream was read: what follows is what follows on a new
  machine.

  Key definitions include:
    * `Machine.SameOrigin`

  The main statements are:
    * `Machine.sameOrigin_acts`
    * `Machine.reset_forgets_history`
-/

------------------------------------------------------------
-- Origin of a Machine
------------------------------------------------------------

namespace Chip8

namespace Machine

/-
  Whether two machines have one configuration and read one
  random stream, however far.
-/
def SameOrigin (m n : Machine) : Prop :=
  m.config = n.config ∧ m.random.stream = n.random.stream

variable {m n : Machine}

/- A random byte is drawn out of the same stream. -/
theorem stream_execute
    (m : Machine)
    (instruction : Instruction) :
    (m.execute instruction).machine.random.stream =
      m.random.stream := by
  rcases m.random_execute instruction with
    hKept | ⟨x, mask, rfl⟩
  · rw [hKept]
  · rfl

theorem sameOrigin_cycle (h : m.SameOrigin n) :
    m.cycle.machine.SameOrigin n := by
  cases hMode : m.mode with
  | running =>
      rw [cycle_running hMode, machine_dispatch]
      have hConfig := (m.host_execute m.current).2.1
      have hStream := m.stream_execute m.current
      exact ⟨hConfig.trans h.1, hStream.trans h.2⟩
  | awaitingKey r =>
      rw [cycle_awaiting hMode, (m.resume_footprint r).rest]
      exact h

theorem sameOrigin_after
    (h : m.SameOrigin n)
    (call : HostCall) :
    (m.after call).SameOrigin n := by
  have hCall :=
    guarded_call
      (P := fun s => s.SameOrigin n)
      (Q := fun _ => True)
      (fun s hs _ => sameOrigin_cycle hs)
      (fun s clock hs => hs)
      call
      (fun hIdle s hs => by
        cases call with
        | load program =>
            simp only [after, load]
            split
            · exact hs
            · exact hs
        | reset | setKey index down => exact hs
        | cycle | step delta => exact hIdle.elim)
      m h
  exact hCall.2 fun _ _ => trivial

/- No action of the host reaches the origin of a machine. -/
theorem sameOrigin_act
    (h : m.SameOrigin n)
    (action : HostAction) :
    (m.act action).SameOrigin n := by
  cases action with
  | call call => exact sameOrigin_after h call
  | push a pc =>
      simp only [act, pushFrame]
      split
      · exact h
      · exact h
  | pop pc =>
      simp only [act, popFrame]
      split
      · exact h
      · exact h
  | _ => exact h

theorem sameOrigin_acts
    (h : m.SameOrigin n)
    (actions : List HostAction) :
    (m.acts actions).SameOrigin n := by
  induction actions generalizing m with
  | nil => exact h
  | cons action actions ih =>
      exact ih (sameOrigin_act h action)

------------------------------------------------------------
-- Resets
------------------------------------------------------------

/-
  Whatever a host has done to a machine, a reset makes it the
  new machine with the same configuration and with the random
  stream read as far.  Nothing that the host does afterwards
  tells the two apart.
-/
theorem reset_forgets_history
    (config : Config)
    (random : RandomSource)
    (actions : List HostAction) :
    let m := (initial config random).acts actions
    let fresh :=
      initial config
        { random with position := m.random.position }
    m.reset.machine = fresh ∧
      ∀ later,
        m.reset.machine.chronicle later =
          fresh.chronicle later := by
  intro m fresh
  have hOrigin : m.SameOrigin (initial config random) :=
    sameOrigin_acts ⟨rfl, rfl⟩ actions
  have hConfig : m.config = config := hOrigin.1
  have hStream : m.random.stream = random.stream :=
    hOrigin.2
  have hRandom :
      m.random =
        { random with position := m.random.position } := by
    rw [← hStream]
  have hReset : m.reset.machine = fresh := by
    change m.cleared = fresh
    rw [cleared_eq_initial, hConfig]
    exact congrArg (initial config) hRandom
  refine ⟨hReset, fun later => ?_⟩
  rw [hReset]

end Machine

end Chip8
