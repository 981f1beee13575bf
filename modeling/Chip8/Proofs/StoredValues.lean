import Chip8.Proofs.AddressCongruence
import Chip8.Proofs.Footprint

/-
  This file shows that stored values last: what a store puts
  into memory is what a later load takes out of it, as long as
  no store between them reaches the same bytes.

  Key definitions include:
    * `Machine.Spares`
    * `Machine.Loads`

  The main statements are:
    * `Machine.read_run`
    * `Machine.loads_of_stored`
    * `Machine.stored_values_loaded`
-/

------------------------------------------------------------
-- Runs of Registers
------------------------------------------------------------

namespace Chip8

namespace Registers

theorem getElem_leading
    (v : Registers)
    (x : Register)
    (k : Nat)
    (hk : k < (v.leading x).length)
    (hLt : k < 16) :
    (v.leading x)[k] = v.get ⟨k, hLt⟩ := by
  simp [leading, get, Cells.read]

/- Some of the values of V0 to VX are those of V0 to VY. -/
theorem take_leading
    (v : Registers)
    {y x : Register}
    (h : y ≤ x) :
    (v.leading x).take (y.val + 1) = v.leading y := by
  have hLe : y.val + 1 ≤ x.val + 1 := Nat.succ_le_succ h
  unfold leading
  rw [List.take_take, Nat.min_eq_left hLe]

/- Values put into V0 to VX are the values of V0 to VX. -/
theorem leading_setLeading
    (v : Registers)
    (x : Register)
    {values : List UInt8}
    (hLength : values.length = x.val + 1) :
    (v.setLeading values).leading x = values := by
  have hSixteen : values.length ≤ 16 := hLength ▸ x.isLt
  apply List.ext_getElem
  · rw [length_leading, hLength]
  · intro k hk hValue
    have hLt : k < 16 := by omega
    have hSet := get_setFrom v 0 values k hValue (by omega)
    simp only [Nat.zero_add] at hSet
    rw [getElem_leading _ _ _ _ hLt]
    exact hSet

end Registers

------------------------------------------------------------
-- Decimal Digits
------------------------------------------------------------

/- The stored digits of a byte are its decimal digits. -/
theorem Machine.decimalDigits_weighted (value : UInt8) :
    ∃ hundreds tens ones : UInt8,
      Machine.decimalDigits value = [hundreds, tens, ones] ∧
      hundreds ≤ 9 ∧ tens ≤ 9 ∧ ones ≤ 9 ∧
      100 * hundreds.toNat + 10 * tens.toNat + ones.toNat =
        value.toNat := by
  have hLt := value.toNat_lt
  refine ⟨_, _, _, rfl, ?_, ?_, ?_, ?_⟩
  all_goals
    simp only [UInt8.le_iff_toNat_le, UInt8.toNat_ofNat',
      UInt8.toNat_ofNat]
    omega

namespace Machine

variable {m : Machine}

------------------------------------------------------------
-- Stores
------------------------------------------------------------

/- A cycle at FX55 writes V0 to VX at the index. -/
theorem memory_cycle_store
    (hMode : m.mode = .running)
    (hStore : m.fetched.IsDevice 0x55) :
    m.cycle.machine.memory =
      m.memory.write m.index
        (m.registers.leading m.fetched.x) := by
  have hCurrent : m.current = .store m.fetched.x :=
    Instruction.decode_store hStore
  rw [machine_cycle hMode hCurrent]
  rfl

/- A cycle at FX33 writes the digits of VX at the index. -/
theorem memory_cycle_storeDecimal
    (hMode : m.mode = .running)
    (hStore : m.fetched.IsDevice 0x33) :
    m.cycle.machine.memory =
      m.memory.write m.index
        (decimalDigits (m.registers.get m.fetched.x)) := by
  have hCurrent : m.current = .storeDecimal m.fetched.x :=
    Instruction.decode_storeDecimal hStore
  rw [machine_cycle hMode hCurrent]
  rfl

------------------------------------------------------------
-- Loads
------------------------------------------------------------

/-
  Whether a cycle puts these values into V0 to VX and leaves
  the later registers, the index register and memory alone.
-/
structure Loads
    (m : Machine)
    (x : Register)
    (values : List UInt8) : Prop where
  result : m.cycle.result = some (.load x)
  leading : m.cycle.machine.registers.leading x = values
  later :
    ∀ r, x < r →
      m.cycle.machine.registers.get r = m.registers.get r
  index : m.cycle.machine.index = m.index
  memory : m.cycle.machine.memory = m.memory

/- A cycle at FX65 loads the bytes that the index points at. -/
theorem loads_of_fetched
    (hMode : m.mode = .running)
    (hLoad : m.fetched.IsDevice 0x65) :
    m.Loads m.fetched.x
      (m.memory.read m.index (m.fetched.x.val + 1)) := by
  have hCurrent : m.current = .load m.fetched.x :=
    Instruction.decode_load hLoad
  have hMachine :
      m.cycle.machine =
        { m.loadRegisters m.fetched.x with
          pc := m.pc + 2 } := by
    rw [machine_cycle hMode hCurrent]
    rfl
  have hLength :=
    m.memory.length_read m.index (m.fetched.x.val + 1)
  constructor
  · rw [cycle_running hMode]
    simp [dispatch, hCurrent, execute]
  · rw [hMachine]
    exact Registers.leading_setLeading _ _ hLength
  · intro r hr
    have hBehind : m.fetched.x.val < r.val := hr
    rw [hMachine]
    exact
      Registers.get_setFrom_of_le _ _ _ _ (by omega)
  · rw [hMachine]
    rfl
  · rw [hMachine]
    rfl

------------------------------------------------------------
-- Bytes out of Reach
------------------------------------------------------------

/-
  Whether a cycle that begins here carries out no word that
  can store into the `count` bytes from an address on.
-/
def Spares
    (m : Machine)
    (a : UInt16)
    (count : Nat) : Prop :=
  m.mode = .running →
    ∀ k, k < count →
      ¬ m.fetched.Stores m.index
        (Memory.cell (a + UInt16.ofNat k))

instance
    (w : Word)
    (index : UInt16)
    (b : Fin 4096) : Decidable (w.Stores index b) :=
  inferInstanceAs (Decidable (_ ∨ _))

instance
    (m : Machine)
    (a : UInt16)
    (count : Nat) : Decidable (m.Spares a count) :=
  inferInstanceAs (Decidable (_ → _))

theorem read_cycle
    {a : UInt16}
    {count : Nat}
    (hSpares : m.Spares a count) :
    m.cycle.machine.memory.read a count =
      m.memory.read a count := by
  cases hMode : m.mode with
  | running =>
      rw [cycle_running hMode]
      apply Memory.read_eq_of_get
      intro k hk
      rcases m.dispatch_footprint.memory
          (Memory.cell (a + UInt16.ofNat k)) with
        hKept | hStores
      · exact hKept
      · exact absurd hStores (hSpares hMode k hk)
  | awaitingKey r =>
      rw [cycle_awaiting hMode, (m.resume_footprint r).rest]

/-
  Bytes stay as they are through a run without a load or a
  reset until a cycle stores into one of them.
-/
theorem read_run
    {a : UInt16}
    {values : List UInt8}
    (hRead : m.memory.read a values.length = values)
    {calls : List HostCall}
    (hContinues : ∀ call ∈ calls, call.Continues) :
    HoldsUntil
      (fun s => s.memory.read a values.length = values)
      (fun s => s.Spares a values.length)
      (m.starts calls) := by
  refine (guarded_run ?_ ?_ calls ?_ m hRead).1
  · intro s hs hSpares
    exact (read_cycle hSpares).trans hs
  · intro s clock hs
    exact hs
  · intro call hMem hIdle s hs
    cases call with
    | setKey index down => exact hs
    | load program | reset =>
        exact (hContinues _ hMem).elim
    | cycle | step delta => exact hIdle.elim

------------------------------------------------------------
-- Loading Stored Values
------------------------------------------------------------

/-
  What a cycle has written at its index is what the first
  registers get at a later load from the same cell, if the
  cycles before it spare these bytes.
-/
theorem loads_of_stored
    {values : List UInt8}
    (hWrite :
      m.cycle.machine.memory =
        m.memory.write m.index values)
    (hSize : values.length ≤ 16)
    {calls : List HostCall}
    (hContinues : ∀ call ∈ calls, call.Continues)
    {earlier later : List Machine}
    {s : Machine}
    (hStarts :
      m.cycle.machine.starts calls = earlier ++ s :: later)
    (hSpares :
      ∀ e ∈ earlier, e.Spares m.index values.length)
    (hMode : s.mode = .running)
    (hLoad : s.fetched.IsDevice 0x65)
    (hFits : s.fetched.x.val < values.length)
    (hIndex : Memory.cell s.index = Memory.cell m.index) :
    s.Loads s.fetched.x
      (values.take (s.fetched.x.val + 1)) := by
  have hStored :
      m.cycle.machine.memory.read m.index values.length =
        values := by
    rw [hWrite]
    exact Memory.read_write _ _ (by omega)
  have hRun := read_run hStored hContinues
  rw [hStarts] at hRun
  have hKept := hRun.at_split hSpares
  have hLoaded :
      s.memory.read s.index (s.fetched.x.val + 1) =
        values.take (s.fetched.x.val + 1) := by
    calc
      s.memory.read s.index (s.fetched.x.val + 1)
      _ = s.memory.read m.index (s.fetched.x.val + 1) :=
        Memory.read_congr hIndex _ _
      _ = (s.memory.read m.index values.length).take
            (s.fetched.x.val + 1) :=
        (Memory.take_read _ _ hFits).symm
      _ = values.take (s.fetched.x.val + 1) := by
        rw [hKept]
  exact hLoaded ▸ loads_of_fetched hMode hLoad

/-
  A later load from the cell at which FX55 or FX33 stored gets
  back what was stored, if no cycle between them stores into
  these bytes: after FX55 the values that the registers had,
  after FX33 the decimal digits of the value that VX had.
-/
theorem stored_values_loaded
    (hMode : m.mode = .running)
    {calls : List HostCall}
    (hContinues : ∀ call ∈ calls, call.Continues)
    {earlier later : List Machine}
    {s : Machine}
    (hStarts :
      m.cycle.machine.starts calls = earlier ++ s :: later)
    (hLaterMode : s.mode = .running)
    (hLoad : s.fetched.IsDevice 0x65)
    (hIndex : Memory.cell s.index = Memory.cell m.index) :
    (m.fetched.IsDevice 0x55 →
      s.fetched.x ≤ m.fetched.x →
      (∀ e ∈ earlier,
        e.Spares m.index (m.fetched.x.val + 1)) →
      s.Loads s.fetched.x
        (m.registers.leading s.fetched.x)) ∧
    (m.fetched.IsDevice 0x33 →
      s.fetched.x.val ≤ 2 →
      (∀ e ∈ earlier, e.Spares m.index 3) →
      ∃ hundreds tens ones : UInt8,
        hundreds ≤ 9 ∧ tens ≤ 9 ∧ ones ≤ 9 ∧
        100 * hundreds.toNat + 10 * tens.toNat +
            ones.toNat =
          (m.registers.get m.fetched.x).toNat ∧
        s.Loads s.fetched.x
          ([hundreds, tens, ones].take
            (s.fetched.x.val + 1))) := by
  constructor
  · intro hStore hFits hSpares
    have hLength :=
      m.registers.length_leading m.fetched.x
    have hLoads :=
      loads_of_stored (memory_cycle_store hMode hStore)
        (by omega) hContinues hStarts
        (by rw [hLength]; exact hSpares) hLaterMode hLoad
        (by rw [hLength]; exact Nat.lt_succ_of_le hFits)
        hIndex
    rw [Registers.take_leading _ hFits] at hLoads
    exact hLoads
  · intro hStore hFits hSpares
    rcases decimalDigits_weighted
        (m.registers.get m.fetched.x) with
      ⟨hundreds, tens, ones, hDigits, hHundreds, hTens,
        hOnes, hValue⟩
    have hWrite := memory_cycle_storeDecimal hMode hStore
    rw [hDigits] at hWrite
    have hLoads :=
      loads_of_stored hWrite (by simp) hContinues hStarts
        hSpares hLaterMode hLoad (Nat.lt_succ_of_le hFits)
        hIndex
    exact
      ⟨hundreds, tens, ones, hHundreds, hTens, hOnes,
        hValue, hLoads⟩

/-
  A machine that stores at cell 0x020, stores V0 elsewhere,
  and loads from cell 0x020 through another index.  V0 and V1
  hold 171 and 205.
-/
def storing
    (store : UInt8)
    (load : UInt8) : Machine :=
  { initial {} (.ofSeed 7) with
    registers := Registers.zero.setLeading [171, 205]
    memory :=
      Memory.blank.write 0x10
        [0xF1, store, 0x60, 0x07, 0xA0, 0x30, 0xF0, 0x55,
          0xA0, 0x20, load, 0x65]
    pc := 0x10
    index := 0xF020 }

/- The cycles between the first store and the load. -/
def betweenStoreAndLoad : List HostCall :=
  [.cycle, .setKey 3 true, .cycle, .cycle, .cycle, .cycle]

/- Both bytes, or all three digits, are stored and loaded. -/
theorem storing_loaded :
    (∃ first second third fourth s,
      (storing 0x55 0xF1).cycle.machine.starts
          betweenStoreAndLoad =
        [first, second, third, fourth, s] ∧
      s.Loads (Nibble.ofNat 1) [171, 205]) ∧
    ∃ first second third fourth s,
      (storing 0x33 0xF2).cycle.machine.starts
          betweenStoreAndLoad =
        [first, second, third, fourth, s] ∧
      ∃ hundreds tens ones : UInt8,
        100 * hundreds.toNat + 10 * tens.toNat +
            ones.toNat = 205 ∧
        s.Loads (Nibble.ofNat 2) [hundreds, tens, ones] := by
  have hContinues :
      ∀ call ∈ betweenStoreAndLoad, call.Continues := by
    simp [betweenStoreAndLoad, HostCall.Continues]
  constructor
  · have hStarts :
        (storing 0x55 0xF1).cycle.machine.starts
            betweenStoreAndLoad =
          [_, _, _, _] ++ _ :: [] :=
      rfl
    have hLoads :=
      (stored_values_loaded (m := storing 0x55 0xF1) rfl
        hContinues hStarts (by decide +kernel)
        (by decide +kernel) (by decide +kernel)).1
        (by decide +kernel) (by decide +kernel)
        (by decide +kernel)
    exact ⟨_, _, _, _, _, hStarts, hLoads⟩
  · have hStarts :
        (storing 0x33 0xF2).cycle.machine.starts
            betweenStoreAndLoad =
          [_, _, _, _] ++ _ :: [] :=
      rfl
    rcases (stored_values_loaded (m := storing 0x33 0xF2) rfl
        hContinues hStarts (by decide +kernel)
        (by decide +kernel) (by decide +kernel)).2
        (by decide +kernel) (by decide +kernel)
        (by decide +kernel) with
      ⟨hundreds, tens, ones, _, _, _, hValue, hLoads⟩
    exact
      ⟨_, _, _, _, _, hStarts, hundreds, tens, ones, hValue,
        hLoads⟩

end Machine

end Chip8
