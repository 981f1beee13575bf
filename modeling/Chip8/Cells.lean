/-
  This file defines cells: a fixed count of values, each read
  and written by its place.

  Key definitions include:
    * `Cells`
    * `Cells.fill`, `Cells.read`, `Cells.write`
    * `Cells.overwrite`

  Reading after writing is settled by:
    * `Cells.read_write`
    * `Cells.ext_read`
-/

------------------------------------------------------------
-- Cells
------------------------------------------------------------

namespace Chip8

/- A fixed count of values. -/
abbrev Cells
    (α : Type)
    (n : Nat) :=
  Vector α n

namespace Cells

variable {α : Type} {n : Nat}

/- The same value in every cell. -/
def fill
    (n : Nat)
    (a : α) : Cells α n :=
  Vector.replicate n a

/- The value of a cell. -/
def read
    (cells : Cells α n)
    (i : Fin n) : α :=
  cells[i]

/- Put a value into a cell. -/
def write
    (cells : Cells α n)
    (i : Fin n)
    (a : α) : Cells α n :=
  cells.set i.val a i.isLt

/- Put one value into every cell, whatever stood there. -/
def overwrite
    (cells : Cells α n)
    (a : α) : Cells α n :=
  cells.map fun _ => a

------------------------------------------------------------
-- Reading After Writing
------------------------------------------------------------

@[simp] theorem read_fill
    (a : α)
    (i : Fin n) :
    (fill n a).read i = a := by
  simp [fill, read]

theorem read_write
    (cells : Cells α n)
    (i j : Fin n)
    (a : α) :
    (cells.write i a).read j =
      if i = j then a else cells.read j := by
  simp [read, write, Vector.getElem_set, Fin.ext_iff]

@[simp] theorem read_write_self
    (cells : Cells α n)
    (i : Fin n)
    (a : α) :
    (cells.write i a).read i = a := by
  simp [read_write]

theorem read_write_of_ne
    {cells : Cells α n}
    {i j : Fin n}
    {a : α}
    (h : i ≠ j) :
    (cells.write i a).read j = cells.read j := by
  simp [read_write, h]

/- Cells that read the same everywhere are the same. -/
theorem ext_read
    {cells others : Cells α n}
    (h : ∀ i, cells.read i = others.read i) :
    cells = others := by
  apply Vector.ext
  intro k hk
  exact h ⟨k, hk⟩

/- Nothing of the old values is left. -/
@[simp] theorem overwrite_eq_fill
    (cells : Cells α n)
    (a : α) :
    cells.overwrite a = fill n a :=
  Vector.map_const'

theorem getElem_toList
    (cells : Cells α n)
    (i : Fin n)
    (h : i.val < cells.toList.length) :
    cells.toList[i.val] = cells.read i := by
  simp [read]

end Cells

end Chip8
