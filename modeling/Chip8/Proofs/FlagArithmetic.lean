import Chip8.Proofs.Footprint

/-
  This file gives the five operations of family 8 that have a
  flag in whole numbers, and shows what they leave in the
  registers, whichever of VX, VY and VF are the same register.

  Key definitions include:
    * `FlagOperation`
    * `FlagOperation.result`, `FlagOperation.flag`

  The main statements are:
    * `FlagOperation.toNat_result`
    * `FlagOperation.recovered`
    * `Registers.get_combine_target`
    * `Registers.flag_combine`
    * `Machine.flag_arithmetic`
-/

------------------------------------------------------------
-- Results and Flags in Whole Numbers
------------------------------------------------------------

namespace Chip8

/- The operations of family 8 that have a flag. -/
inductive FlagOperation where
  | add
  | sub
  | shiftRight
  | subFrom
  | shiftLeft
deriving DecidableEq

namespace FlagOperation

/- The last digit K of the words 8XYK of an operation. -/
def digit : FlagOperation → Nat
| add => 0x4
| sub => 0x5
| shiftRight => 0x6
| subFrom => 0x7
| shiftLeft => 0xE

/-
  The result from the values of VX and VY, which are both
  below 256.
-/
def result
    (a : Nat)
    (b : Nat) : FlagOperation → Nat
| add => (a + b) % 256
| sub => (256 + a - b) % 256
| shiftRight => a / 2
| subFrom => (256 + b - a) % 256
| shiftLeft => 2 * a % 256

/- The flag from the values of VX and VY. -/
def flag
    (a : Nat)
    (b : Nat) : FlagOperation → Bool
| add => 255 < a + b
| sub => b < a
| shiftRight => a % 2 = 1
| subFrom => a < b
| shiftLeft => 128 ≤ a

/- The operation that the machine carries out. -/
def operation : FlagOperation → Operation
| add => .add
| sub => .sub
| shiftRight => .shiftRight
| subFrom => .subFrom
| shiftLeft => .shiftLeft

variable (kind : FlagOperation)

theorem code_operation :
    kind.operation.code = kind.digit := by
  cases kind <;> rfl

/- The bytes of the machine are the numbers modulo 256. -/
theorem toNat_result (a b : UInt8) :
    (kind.operation.result a b).toNat =
      kind.result a.toNat b.toNat := by
  have ha := a.toNat_lt
  have hb := b.toNat_lt
  cases kind with
  | add => exact UInt8.toNat_add a b
  | sub =>
      simp only [operation, Operation.result, result,
        UInt8.toNat_sub]
      omega
  | shiftRight =>
      simp only [operation, Operation.result, result,
        UInt8.toNat_ofNat']
      omega
  | subFrom =>
      simp only [operation, Operation.result, result,
        UInt8.toNat_sub]
      omega
  | shiftLeft =>
      simp only [operation, Operation.result, result,
        UInt8.toNat_add]
      omega

theorem flag?_operation (a b : UInt8) :
    kind.operation.flag? a b =
      some (kind.flag a.toNat b.toNat) := by
  cases kind <;> rfl

section Recovery

variable {a b : Nat}

/- Carry and sum make up the whole sum. -/
theorem add_recovered
    (ha : a < 256)
    (hb : b < 256) :
    256 * (flag a b add).toNat + result a b add = a + b := by
  by_cases hCarry : 255 < a + b
  · simp only [flag, result, hCarry, decide_true,
      Bool.toNat_true]
    omega
  · simp only [flag, result, hCarry, decide_false,
      Bool.toNat_false]
    omega

/- The bit shifted out at the left and the rest make up 2a. -/
theorem shiftLeft_recovered (ha : a < 256) :
    256 * (flag a b shiftLeft).toNat +
      result a b shiftLeft = 2 * a := by
  by_cases hHigh : 128 ≤ a
  · simp only [flag, result, hHigh, decide_true,
      Bool.toNat_true]
    omega
  · simp only [flag, result, hHigh, decide_false,
      Bool.toNat_false]
    omega

/- The bit shifted out at the right and the rest make up a. -/
theorem shiftRight_recovered :
    2 * result a b shiftRight +
      (flag a b shiftRight).toNat = a := by
  by_cases hOdd : a % 2 = 1
  · simp only [flag, result, hOdd, decide_true,
      Bool.toNat_true]
    omega
  · simp only [flag, result, hOdd, decide_false,
      Bool.toNat_false]
    omega

/- Where flag and result say all about the operands. -/
theorem recovered
    (ha : a < 256)
    (hb : b < 256) :
    let vf := (kind.flag a b).toNat
    let vx := kind.result a b
    (kind = add → 256 * vf + vx = a + b) ∧
      (kind = shiftLeft → 256 * vf + vx = 2 * a) ∧
      (kind = shiftRight → 2 * vx + vf = a) := by
  refine ⟨?_, ?_, ?_⟩
  · rintro rfl
    exact add_recovered ha hb
  · rintro rfl
    exact shiftLeft_recovered ha
  · rintro rfl
    exact shiftRight_recovered

end Recovery

end FlagOperation

------------------------------------------------------------
-- Combined Registers
------------------------------------------------------------

namespace Registers

variable (v : Registers) (kind : FlagOperation)
variable (x y : Register)

/- VX holds the result, also where it is VY or VF. -/
theorem get_combine_target :
    ((v.combine kind.operation x y).get x).toNat =
      kind.result (v.get x).toNat (v.get y).toNat := by
  simp [combine, kind.toNat_result]

/- VF holds the flag where it is not VX. -/
theorem flag_combine (hTarget : x ≠ flagRegister) :
    (v.combine kind.operation x y).flag.toNat =
      (kind.flag (v.get x).toNat (v.get y).toNat).toNat := by
  unfold combine flag
  -- The result is written later, but not to VF.
  rw [get_set_of_ne hTarget, kind.flag?_operation, setFlag?,
    setFlag, get_set_self]
  cases kind.flag (v.get x).toNat (v.get y).toNat <;> rfl

end Registers

------------------------------------------------------------
-- The Instructions
------------------------------------------------------------

namespace Machine

variable {m : Machine} {kind : FlagOperation} {x y : Register}

theorem machine_cycle_combine
    (hMode : m.mode = .running)
    (hWord : m.fetched = .ofDigits 0x8 x y kind.digit) :
    m.cycle.machine =
      { m with
        registers :=
          m.registers.combine kind.operation x y
        pc := m.pc + 2 } := by
  have hCurrent :
      m.current = .combine kind.operation x y := by
    rw [current, hWord, ← kind.code_operation,
      Instruction.decode_combine]
  rw [machine_cycle hMode hCurrent]
  rfl

/-
  An operation with a flag leaves its result in VX.  It leaves
  the flag in VF where that is not VX, so that sums, doubles
  and halves can be told from the two registers; where VX is
  VF the flag is lost.  Only the program counter moves besides.
-/
theorem flag_arithmetic
    (hMode : m.mode = .running)
    (hWord : m.fetched = .ofDigits 0x8 x y kind.digit) :
    let a := (m.registers.get x).toNat
    let b := (m.registers.get y).toNat
    let after := m.cycle.machine
    let vx := (after.registers.get x).toNat
    let vf := after.registers.flag.toNat
    vx = kind.result a b ∧
      (x ≠ Registers.flagRegister →
        vf = (kind.flag a b).toNat ∧
          (kind = .add → 256 * vf + vx = a + b) ∧
          (kind = .shiftLeft → 256 * vf + vx = 2 * a) ∧
          (kind = .shiftRight → 2 * vx + vf = a)) ∧
      (x = Registers.flagRegister →
        vf = kind.result a b) ∧
      (∀ r, r ≠ x → r ≠ Registers.flagRegister →
        after.registers.get r = m.registers.get r) ∧
      after =
        { m with
          registers := after.registers
          pc := m.pc + 2 } := by
  intro a b after vx vf
  have hAfter : after = _ :=
    machine_cycle_combine hMode hWord
  have hRegisters :
      after.registers =
        m.registers.combine kind.operation x y :=
    congrArg Machine.registers hAfter
  have hResult : vx = kind.result a b := by
    rw [← Registers.get_combine_target, ← hRegisters]
  refine ⟨hResult, ?_, ?_, ?_, ?_⟩
  · intro hTarget
    have hFlag : vf = (kind.flag a b).toNat := by
      rw [← Registers.flag_combine _ _ _ _ hTarget,
        ← hRegisters]
    have ha : a < 256 := UInt8.toNat_lt _
    have hb : b < 256 := UInt8.toNat_lt _
    refine ⟨hFlag, ?_⟩
    rw [hFlag, hResult]
    exact kind.recovered ha hb
  · rintro rfl
    exact hResult
  · intro r hTarget hFlag
    rw [hRegisters]
    rcases m.registers.get_combine_cases kind.operation x y
        r with
      hKept | hX | ⟨_, hVF⟩
    · exact hKept
    · exact absurd hX hTarget
    · exact absurd hVF hFlag
  · rw [hAfter]

/- A machine at 8XY4 where V1 is 200 and VF is 100. -/
def summing
    (x : Register)
    (y : Register) : Machine :=
  { initial {} (.ofSeed 7) with
    registers :=
      (Registers.zero.set (.ofNat 1) 200).set (.ofNat 0xF)
        100
    memory :=
      Memory.blank.write 0x10
        [UInt8.ofNat (0x80 + x.val),
          UInt8.ofNat (y.val * 16 + 4)]
    pc := 0x10 }

/-
  V1 plus VF is 300, left as 44 with a carry.  VF plus V1 is
  left as 44 without one.
-/
theorem summing_both_ways :
    let carried := summing (.ofNat 1) (.ofNat 0xF)
    let lost := summing (.ofNat 0xF) (.ofNat 1)
    (carried.mode = .running ∧
      carried.fetched =
        .ofDigits 0x8 (.ofNat 1) (.ofNat 0xF) 0x4 ∧
      carried.cycle.machine.registers.flag.toNat = 1 ∧
      256 * carried.cycle.machine.registers.flag.toNat +
        (carried.cycle.machine.registers.get
          (.ofNat 1)).toNat = 300) ∧
      lost.mode = .running ∧
      lost.fetched =
        .ofDigits 0x8 (.ofNat 0xF) (.ofNat 1) 0x4 ∧
      lost.cycle.machine.registers.flag.toNat = 44 := by
  intro carried lost
  have hCarried :
      carried.fetched =
        .ofDigits 0x8 (.ofNat 1) (.ofNat 0xF)
          FlagOperation.add.digit := by
    decide +kernel
  have hLost :
      lost.fetched =
        .ofDigits 0x8 (.ofNat 0xF) (.ofNat 1)
          FlagOperation.add.digit := by
    decide +kernel
  rcases flag_arithmetic rfl hCarried with ⟨_, hOther, _⟩
  rcases hOther (by decide) with ⟨hFlag, hSum, _⟩
  rcases flag_arithmetic rfl hLost with ⟨_, _, hSame, _⟩
  refine ⟨⟨rfl, hCarried, ?_, ?_⟩, rfl, hLost, ?_⟩
  · exact hFlag.trans (by decide)
  · exact (hSum rfl).trans (by decide)
  · exact (hSame rfl).trans (by decide)

end Machine

end Chip8
