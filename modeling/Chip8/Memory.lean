import Chip8.Cells
import Chip8.Font
import Chip8.Word

/-
  This file defines the 4096 bytes of memory.  Addresses have
  sixteen bits and count modulo 4096.

  Key definitions include:
    * `Memory`
    * `Memory.get`, `Memory.set`
    * `Memory.read`, `Memory.write`
    * `Memory.fetch`
    * `Memory.installFont`
    * `Memory.initial`, `Memory.reset`
-/

------------------------------------------------------------
-- Memory
------------------------------------------------------------

namespace Chip8

/- Memory of 4096 bytes. -/
structure Memory where
  bytes : Cells UInt8 4096
deriving DecidableEq

namespace Memory

/- The count of bytes. -/
def size : Nat :=
  4096

/- The byte that an address selects. -/
def cell (a : UInt16) : Fin 4096 :=
  ⟨a.toNat % 4096, Nat.mod_lt _ (by decide)⟩

/- The byte at an address. -/
def get
    (memory : Memory)
    (a : UInt16) : UInt8 :=
  memory.bytes.read (cell a)

/- Put a byte at an address. -/
def set
    (memory : Memory)
    (a : UInt16)
    (value : UInt8) : Memory :=
  ⟨memory.bytes.write (cell a) value⟩

/- The bytes at consecutive addresses. -/
def read
    (memory : Memory)
    (a : UInt16) : Nat → List UInt8
| 0 => []
| count + 1 => memory.get a :: memory.read (a + 1) count

/- Put bytes at consecutive addresses, in order. -/
def write
    (memory : Memory)
    (a : UInt16) : List UInt8 → Memory
| [] => memory
| value :: values =>
    (memory.set a value).write (a + 1) values

/- The word whose high byte stands at an address. -/
def fetch
    (memory : Memory)
    (a : UInt16) : Word :=
  UInt16.ofNat
    ((memory.get a).toNat * 256 + (memory.get (a + 1)).toNat)

------------------------------------------------------------
-- Initial Memory and Programs
------------------------------------------------------------

/- All bytes at zero. -/
def blank : Memory :=
  ⟨.fill 4096 0⟩

/- Put the font at its place. -/
def installFont (memory : Memory) : Memory :=
  memory.write Font.start Font.glyphs

/- All bytes at zero but for the font. -/
def initial : Memory :=
  blank.installFont

/- Overwrite all bytes with zero. -/
def wipe (memory : Memory) : Memory :=
  ⟨memory.bytes.overwrite 0⟩

/- Overwrite all bytes with zero and put the font back. -/
def reset (memory : Memory) : Memory :=
  memory.wipe.installFont

@[simp] theorem wipe_eq_blank (memory : Memory) :
    memory.wipe = blank :=
  congrArg Memory.mk (Cells.overwrite_eq_fill _ 0)

@[simp] theorem reset_eq_initial (memory : Memory) :
    memory.reset = initial := by
  rw [reset, wipe_eq_blank, initial]

/- The address at which programs are installed and begin. -/
def programStart : UInt16 :=
  0x200

/- The bytes above the start of programs. -/
def programLimit : Nat :=
  size - programStart.toNat

------------------------------------------------------------
-- Reading After Writing
------------------------------------------------------------

theorem get_set
    (memory : Memory)
    (a b : UInt16)
    (value : UInt8) :
    (memory.set a value).get b =
      if cell a = cell b then value else memory.get b :=
  Cells.read_write memory.bytes (cell a) (cell b) value

@[simp] theorem length_read
    (memory : Memory)
    (a : UInt16)
    (count : Nat) :
    (memory.read a count).length = count := by
  induction count generalizing a with
  | zero => rfl
  | succ count ih => simp [read, ih]

------------------------------------------------------------
-- Runs of Addresses
------------------------------------------------------------

/- Counting on from an address wraps at the end of memory. -/
theorem cell_add
    (a : UInt16)
    (k : Nat) :
    (cell (a + UInt16.ofNat k)).val =
      ((cell a).val + k) % 4096 := by
  simp only [cell, UInt16.toNat_add, UInt16.toNat_ofNat']
  omega

theorem add_one_add
    (a : UInt16)
    (k : Nat) :
    a + 1 + UInt16.ofNat k = a + UInt16.ofNat (k + 1) := by
  apply UInt16.toNat_inj.mp
  simp only [UInt16.toNat_add, UInt16.toNat_ofNat',
    UInt16.toNat_ofNat]
  omega

theorem getElem_read
    (memory : Memory)
    (a : UInt16)
    (count k : Nat)
    (h : k < (memory.read a count).length) :
    (memory.read a count)[k] =
      memory.get (a + UInt16.ofNat k) := by
  induction count generalizing a k with
  | zero => simp [read] at h
  | succ count ih =>
      cases k with
      | zero => simp [read]
      | succ k =>
          simp only [read, List.getElem_cons_succ]
          rw [ih, add_one_add]

/- A write leaves alone what it does not meet. -/
theorem get_write_of_outside
    (memory : Memory)
    (a b : UInt16)
    (values : List UInt8)
    (h :
      ∀ k, k < values.length →
        cell (a + UInt16.ofNat k) ≠ cell b) :
    (memory.write a values).get b = memory.get b := by
  induction values generalizing memory a with
  | nil => rfl
  | cons value values ih =>
      have hFirst : cell a ≠ cell b := by
        simpa using h 0 (by simp)
      rw [write, ih, get_set, if_neg hFirst]
      intro k hk
      rw [add_one_add]
      exact h (k + 1) (by simpa using hk)

/- Each value stands at the address of its place. -/
theorem get_write
    (memory : Memory)
    (a : UInt16)
    (values : List UInt8)
    (hSize : values.length ≤ 4096)
    (k : Nat)
    (hk : k < values.length) :
    (memory.write a values).get (a + UInt16.ofNat k) =
      values[k] := by
  induction values generalizing memory a k with
  | nil => simp at hk
  | cons value values ih =>
      simp only [List.length_cons] at hSize hk
      cases k with
      | zero =>
          rw [write, get_write_of_outside]
          · simp [get_set]
          · intro k hk hEq
            have hVal := congrArg Fin.val hEq
            rw [add_one_add, cell_add, cell_add] at hVal
            omega
      | succ k =>
          simp only [write, List.getElem_cons_succ]
          rw [← add_one_add]
          exact ih _ _ (by omega) _ (by omega)

------------------------------------------------------------
-- Reading Runs Back
------------------------------------------------------------

/- What agrees on a run of addresses reads alike there. -/
theorem read_eq_of_get
    {memory other : Memory}
    {a : UInt16}
    {count : Nat}
    (h :
      ∀ k, k < count →
        memory.get (a + UInt16.ofNat k) =
          other.get (a + UInt16.ofNat k)) :
    memory.read a count = other.read a count := by
  apply List.ext_getElem
  · simp
  · intro k hk _
    rw [getElem_read, getElem_read]
    exact h k (by simpa using hk)

/- A part of a run is the run of so many addresses. -/
theorem take_read
    (memory : Memory)
    (a : UInt16)
    {part count : Nat}
    (h : part ≤ count) :
    (memory.read a count).take part = memory.read a part := by
  apply List.ext_getElem
  · simp [Nat.min_eq_left h]
  · intro k _ _
    rw [List.getElem_take, getElem_read, getElem_read]

/- Written values are read back. -/
theorem read_write
    (memory : Memory)
    (a : UInt16)
    {values : List UInt8}
    (hSize : values.length ≤ 4096) :
    (memory.write a values).read a values.length =
      values := by
  apply List.ext_getElem
  · simp
  · intro k _ hk
    rw [getElem_read, get_write memory a values hSize k hk]

end Memory

end Chip8
