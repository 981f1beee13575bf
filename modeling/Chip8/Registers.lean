import Chip8.Cells
import Chip8.Word

/-
  This file defines the sixteen data registers V0 to VF.

  Key definitions include:
    * `Registers`
    * `Registers.get`, `Registers.set`
    * `Registers.setFlag`
    * `Registers.reset`
    * `Registers.leading`, `Registers.setLeading`
-/

------------------------------------------------------------
-- Data Registers
------------------------------------------------------------

namespace Chip8

/- Sixteen eight-bit registers. -/
structure Registers where
  cells : Cells UInt8 16
deriving DecidableEq

namespace Registers

/- All registers at zero. -/
def zero : Registers :=
  ⟨.fill 16 0⟩

/- The register VF, which carries flags. -/
def flagRegister : Register :=
  Nibble.greatest

/- The value of a register. -/
def get
    (v : Registers)
    (r : Register) : UInt8 :=
  v.cells.read r

/- Put a value into a register. -/
def set
    (v : Registers)
    (r : Register)
    (value : UInt8) : Registers :=
  ⟨v.cells.write r value⟩

/- Add to a register modulo 256; VF is no carry here. -/
def add
    (v : Registers)
    (r : Register)
    (value : UInt8) : Registers :=
  v.set r (v.get r + value)

/- Set VF to one or zero. -/
def setFlag
    (v : Registers)
    (on : Bool) : Registers :=
  v.set flagRegister (if on then 1 else 0)

/- The value of VF. -/
def flag (v : Registers) : UInt8 :=
  v.get flagRegister

/- Put zeros in the place of all registers. -/
def reset (v : Registers) : Registers :=
  { v with cells := .fill 16 0 }

@[simp] theorem reset_eq_zero (v : Registers) :
    v.reset = zero :=
  rfl

------------------------------------------------------------
-- Runs of Registers
------------------------------------------------------------

/- The values of V0 to VX. -/
def leading
    (v : Registers)
    (x : Register) : List UInt8 :=
  v.cells.toList.take (x.val + 1)

/- Put values into consecutive registers from a first one. -/
def setFrom
    (v : Registers)
    (first : Nat) : List UInt8 → Registers
| [] => v
| value :: values =>
    if h : first < 16 then
      (v.set ⟨first, h⟩ value).setFrom (first + 1) values
    else
      v

/- Put values into V0, V1 and so on. -/
def setLeading
    (v : Registers)
    (values : List UInt8) : Registers :=
  v.setFrom 0 values

------------------------------------------------------------
-- Reading After Writing
------------------------------------------------------------

theorem get_set
    (v : Registers)
    (r s : Register)
    (value : UInt8) :
    (v.set r value).get s =
      if r = s then value else v.get s :=
  Cells.read_write v.cells r s value

@[simp] theorem get_set_self
    (v : Registers)
    (r : Register)
    (value : UInt8) :
    (v.set r value).get r = value := by
  simp [get_set]

theorem get_set_of_ne
    {v : Registers}
    {r s : Register}
    {value : UInt8}
    (h : r ≠ s) :
    (v.set r value).get s = v.get s := by
  simp [get_set, h]

------------------------------------------------------------
-- Reading a Run of Registers
------------------------------------------------------------

theorem get_setFrom_of_lt
    (v : Registers)
    (first : Nat)
    (values : List UInt8)
    (r : Register)
    (h : r.val < first) :
    (v.setFrom first values).get r = v.get r := by
  induction values generalizing v first with
  | nil => rfl
  | cons value values ih =>
      rw [setFrom]
      split
      · rw [ih _ _ (by omega), get_set_of_ne]
        intro hEq
        have hVal : first = r.val := congrArg Fin.val hEq
        omega
      · rfl

theorem get_setFrom_of_le
    (v : Registers)
    (first : Nat)
    (values : List UInt8)
    (r : Register)
    (h : first + values.length ≤ r.val) :
    (v.setFrom first values).get r = v.get r := by
  induction values generalizing v first with
  | nil => rfl
  | cons value values ih =>
      simp only [List.length_cons] at h
      rw [setFrom]
      split
      · rw [ih _ _ (by omega), get_set_of_ne]
        intro hEq
        have hVal : first = r.val := congrArg Fin.val hEq
        omega
      · rfl

/- Each value stands in the register of its place. -/
theorem get_setFrom
    (v : Registers)
    (first : Nat)
    (values : List UInt8)
    (k : Nat)
    (hk : k < values.length)
    (h : first + k < 16) :
    (v.setFrom first values).get ⟨first + k, h⟩ =
      values[k] := by
  induction values generalizing v first k with
  | nil => simp at hk
  | cons value values ih =>
      rw [setFrom, dif_pos (by omega)]
      cases k with
      | zero =>
          rw [get_setFrom_of_lt _ _ _ _ (by simp)]
          simp
      | succ k =>
          have hRest :=
            ih (v.set ⟨first, by omega⟩ value) (first + 1) k
              (by simpa using hk) (by omega)
          simp only [List.getElem_cons_succ]
          rw [← hRest]
          congr 2
          omega

end Registers

end Chip8
