import Chip8.Proofs.Footprint
import Chip8.Proofs.HostAccess

/-
  This file shows that the random stream is read in order and
  without gaps: each random instruction that is carried out
  takes the next byte, and nothing else that the host or a
  program does reads the stream or takes it back.

  Key definitions include:
    * `RandomSource.skip`
    * `Machine.drawsByte`
    * `Machine.allStarts`
    * `RandomSource.ReadBy`

  The main statements are:
    * `Machine.readBy_cycle`
    * `Machine.readBy_acts`
    * `Machine.random_stream_read_in_order`
-/

------------------------------------------------------------
-- Reading On
------------------------------------------------------------

namespace Chip8

namespace RandomSource

/- The source with so many more bytes drawn. -/
def skip
    (source : RandomSource)
    (count : Nat) : RandomSource :=
  { source with position := source.position + count }

theorem skip_skip
    (source : RandomSource)
    (first second : Nat) :
    (source.skip first).skip second =
      source.skip (first + second) := by
  simp only [skip, Nat.add_assoc]

end RandomSource

------------------------------------------------------------
-- Random Instructions of a Run
------------------------------------------------------------

/- Whether an instruction draws a random byte. -/
def Instruction.isRandom : Instruction → Bool
| .random .. => true
| _ => false

namespace Machine

/-
  Whether the cycle that begins here completes a random
  instruction.
-/
def drawsByte (m : Machine) : Bool :=
  m.cycle.result.any Instruction.isRandom

/- The machines at which the cycles of an action begin. -/
def actionStarts (m : Machine) : HostAction → List Machine
| .call call => m.callStarts call
| _ => []

/- The machines at which the cycles of a list of actions begin. -/
def allStarts (m : Machine) : List HostAction → List Machine
| [] => []
| action :: actions =>
    m.actionStarts action ++ (m.act action).allStarts actions

variable {m : Machine}

/- Only a running machine completes a random instruction. -/
theorem drawsByte_iff :
    m.drawsByte = true ↔
      m.mode = .running ∧
        ∃ x mask, m.current = .random x mask := by
  unfold drawsByte
  cases hMode : m.mode with
  | running =>
      rw [cycle_running hMode]
      cases hCurrent : m.current with
      | random x mask =>
          simp [dispatch, hCurrent, execute,
            Instruction.isRandom]
      | _ =>
          simp only [dispatch, hCurrent]
          split <;> simp [Instruction.isRandom]
  | awaitingKey r =>
      rw [cycle_awaiting hMode]
      rcases m.resume_cases r with ⟨_, hEq⟩ | ⟨key, _, hEq⟩
      · simp [hEq]
      · simp [hEq, Instruction.isRandom]

/- A random instruction takes the next byte of the source. -/
theorem cycle_of_drawsByte (hDraws : m.drawsByte = true) :
    m.cycle.machine.random = m.random.skip 1 ∧
      ∃ x mask,
        m.cycle.result = some (.random x mask) ∧
        m.cycle.machine.registers.get x =
          m.random.stream m.random.position &&& mask := by
  rcases drawsByte_iff.mp hDraws with
    ⟨hMode, x, mask, hCurrent⟩
  have hMachine := machine_cycle hMode hCurrent
  refine ⟨?_, x, mask, ?_, ?_⟩
  · rw [hMachine]
    rfl
  · rw [cycle_running hMode]
    simp [dispatch, hCurrent, execute]
  · rw [hMachine]
    exact Registers.get_set_self _ _ _

/- Every other cycle leaves the source alone. -/
theorem random_cycle_of_not_drawsByte
    (hNot : m.drawsByte = false) :
    m.cycle.machine.random = m.random := by
  cases hMode : m.mode with
  | running =>
      rw [cycle_running hMode, machine_dispatch]
      rcases m.random_execute m.current with
        hKept | ⟨x, mask, hCurrent⟩
      · exact hKept
      · have hDraws :=
          drawsByte_iff.mpr ⟨hMode, x, mask, hCurrent⟩
        rw [hNot] at hDraws
        cases hDraws
  | awaitingKey r =>
      rw [cycle_awaiting hMode, (m.resume_footprint r).rest]

end Machine

------------------------------------------------------------
-- Readers of a Source
------------------------------------------------------------

/-
  Whether the machines of a list are those that read on from a
  source, each finding it one byte after the one before, and
  leave it as another source.
-/
structure RandomSource.ReadBy
    (source : RandomSource)
    (readers : List Machine)
    (left : RandomSource) : Prop where
  found :
    readers.map Machine.random =
      (List.range readers.length).map source.skip
  left : left = source.skip readers.length

namespace RandomSource.ReadBy

theorem none (source : RandomSource) :
    source.ReadBy [] source where
  found := rfl
  left := rfl

/- What one list of readers leaves another one can find. -/
theorem append
    {source middle left : RandomSource}
    {first second : List Machine}
    (hFirst : source.ReadBy first middle)
    (hSecond : middle.ReadBy second left) :
    source.ReadBy (first ++ second) left := by
  have hSkip :
      middle.skip =
        source.skip ∘ fun k => first.length + k := by
    funext k
    rw [hFirst.left, skip_skip]
    rfl
  constructor
  · rw [List.map_append, hFirst.found, hSecond.found, hSkip,
      List.length_append, List.range_add, List.map_append,
      List.map_map]
  · rw [hSecond.left, hFirst.left, skip_skip,
      List.length_append]

end RandomSource.ReadBy

namespace Machine

------------------------------------------------------------
-- Runs
------------------------------------------------------------

/- A cycle reads one byte if it completes a random instruction. -/
theorem readBy_cycle (m : Machine) :
    m.random.ReadBy ([m].filter drawsByte)
      m.cycle.machine.random := by
  cases hDraws : m.drawsByte with
  | true =>
      rw [List.filter_cons_of_pos hDraws]
      exact ⟨rfl, (cycle_of_drawsByte hDraws).1⟩
  | false =>
      rw [List.filter_cons_of_neg (by simp [hDraws]),
        random_cycle_of_not_drawsByte hDraws]
      exact .none m.random

theorem readBy_cycles
    (m : Machine)
    (count : Nat) :
    m.random.ReadBy ((m.cycleStarts count).filter drawsByte)
      (m.cycles count).machine.random := by
  induction count generalizing m with
  | zero => exact .none m.random
  | succ count ih =>
      have hSplit :
          m.cycleStarts (count + 1) =
            [m] ++ m.cycle.machine.cycleStarts count :=
        rfl
      rw [hSplit, List.filter_append]
      exact (readBy_cycle m).append (ih m.cycle.machine)

theorem readBy_call
    (m : Machine)
    (call : HostCall) :
    m.random.ReadBy ((m.callStarts call).filter drawsByte)
      (m.after call).random := by
  cases call with
  | load program =>
      simp only [after, load]
      split
      · exact .none m.random
      · exact .none m.random
  | reset | setKey index down => exact .none m.random
  | cycle => exact readBy_cycle m
  | step delta =>
      rcases (m.cycles m.batch).machine.elapse_keeps delta with
        ⟨clock, hKept⟩
      rw [after_step, hKept]
      exact readBy_cycles m m.batch

theorem readBy_act
    (m : Machine)
    (action : HostAction) :
    m.random.ReadBy
      ((m.actionStarts action).filter drawsByte)
      (m.act action).random := by
  cases action with
  | call call => exact readBy_call m call
  | push a pc =>
      simp only [act, pushFrame]
      split
      · exact .none m.random
      · exact .none m.random
  | pop pc =>
      simp only [act, popFrame]
      split
      · exact .none m.random
      · exact .none m.random
  | _ => exact .none m.random

theorem readBy_acts
    (m : Machine)
    (actions : List HostAction) :
    m.random.ReadBy
      ((m.allStarts actions).filter drawsByte)
      (m.acts actions).random := by
  induction actions generalizing m with
  | nil => exact .none m.random
  | cons action actions ih =>
      unfold allStarts
      rw [List.filter_append]
      exact (readBy_act m action).append (ih (m.act action))

/-
  Whatever the host does to a new machine with a stream, such
  as that of a seed, the random instruction of number `k`,
  from zero and across resets and loads, puts the byte of
  number `k` of the stream into its register, masked.  At the
  end as many bytes are drawn as random instructions were
  completed.
-/
theorem random_stream_read_in_order
    (config : Config)
    (stream : Nat → UInt8)
    (actions : List HostAction) :
    let m := initial config (.ofStream stream)
    let readers := (m.allStarts actions).filter drawsByte
    (m.acts actions).random = ⟨stream, readers.length⟩ ∧
      ∀ k : Fin readers.length,
        ∃ x mask,
          (readers.get k).cycle.result =
            some (.random x mask) ∧
          (readers.get k).cycle.machine.registers.get x =
            stream k.val &&& mask := by
  intro m readers
  have hRead : m.random.ReadBy readers _ :=
    readBy_acts m actions
  have hPosition (count : Nat) :
      m.random.skip count = ⟨stream, count⟩ :=
    congrArg (RandomSource.mk _) (Nat.zero_add count)
  constructor
  · rw [hRead.left, hPosition]
  · intro k
    have hMem : readers.get k ∈ readers := List.get_mem _ _
    have hDraws := (List.mem_filter.mp hMem).2
    have hFound :
        (readers.get k).random = ⟨stream, k.val⟩ := by
      have hAt :=
        congrArg (fun list => list[k.val]?) hRead.found
      simpa [hPosition] using hAt
    rcases (cycle_of_drawsByte hDraws).2 with
      ⟨x, mask, hResult, hValue⟩
    rw [hFound] at hValue
    exact ⟨x, mask, hResult, hValue⟩

end Machine

end Chip8
