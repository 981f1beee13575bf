import Chip8.Cells

/-
  This file defines accesses that are checked when they are
  made: numbers of a bounded width, and cells that are read
  and written by a number.  A result outside its width or a
  number that names no cell is a trap.

  Key definitions include:
    * `Trap`
    * `Checked.add`, `Checked.sub`, `Checked.mul`
    * `Checked.shiftLeft`, `Checked.shiftRight`
    * `Checked.read`, `Checked.write`
    * `Checked.take`, `Checked.copyInto`
-/

------------------------------------------------------------
-- Traps
------------------------------------------------------------

namespace Chip8

/- Why a checked access stops the program. -/
inductive Trap where
  /- A number names none of so many cells. -/
  | noSuchCell (i : Nat) (count : Nat)
  /- A run of cells begins behind its end. -/
  | reversed (start : Nat) (stop : Nat)
  /- A run of cells ends behind the last of so many. -/
  | pastEnd (stop : Nat) (count : Nat)
  /- So many values are copied to a run of another length. -/
  | lengthMismatch (values : Nat) (cells : Nat)
  /- A result is outside its width. -/
  | overflow
  /- A number is outside the type of an operand. -/
  | misfit (value : Nat)
  /- A place was reached that no value leads to. -/
  | unreachable
deriving DecidableEq

namespace Checked

@[simp] theorem ok_bind
    {α β : Type}
    (a : α)
    (next : α → Except Trap β) :
    (Except.ok a >>= next) = next a :=
  rfl

@[simp] theorem error_bind
    {α β : Type}
    (trap : Trap)
    (next : α → Except Trap β) :
    (Except.error trap >>= next) = .error trap :=
  rfl

------------------------------------------------------------
-- Arithmetic
------------------------------------------------------------

/- The counts of values of 8, 16, 32 and 64 bits. -/
def byteRange : Nat :=
  256

def wordRange : Nat :=
  65536

def doubleRange : Nat :=
  4294967296

def sizeRange : Nat :=
  18446744073709551616

def add
    (range : Nat)
    (a b : Nat) : Except Trap Nat :=
  if a + b < range then .ok (a + b) else .error .overflow

def sub (a b : Nat) : Except Trap Nat :=
  if b ≤ a then .ok (a - b) else .error .overflow

def mul
    (range : Nat)
    (a b : Nat) : Except Trap Nat :=
  if a * b < range then .ok (a * b) else .error .overflow

/- Bits that are shifted out at the left are lost; only the
  count of places is checked. -/
def shiftLeft
    (bits : Nat)
    (range : Nat)
    (a : Nat)
    (places : Nat) : Except Trap Nat :=
  if places < bits then
    .ok (a <<< places % range)
  else
    .error .overflow

def shiftRight
    (bits : Nat)
    (a : Nat)
    (places : Nat) : Except Trap Nat :=
  if places < bits then
    .ok (a >>> places)
  else
    .error .overflow

theorem add_of_lt
    {range a b : Nat}
    (hFits : a + b < range) :
    add range a b = .ok (a + b) :=
  if_pos hFits

theorem sub_of_le
    {a b : Nat}
    (hLe : b ≤ a) :
    sub a b = .ok (a - b) :=
  if_pos hLe

theorem sub_of_lt
    {a b : Nat}
    (hLt : a < b) :
    sub a b = .error .overflow :=
  if_neg (Nat.not_le.mpr hLt)

theorem mul_of_lt
    {range a b : Nat}
    (hFits : a * b < range) :
    mul range a b = .ok (a * b) :=
  if_pos hFits

theorem shiftRight_of_lt
    {bits places : Nat}
    (a : Nat)
    (hFits : places < bits) :
    shiftRight bits a places = .ok (a >>> places) :=
  if_pos hFits

------------------------------------------------------------
-- Cells
------------------------------------------------------------

variable {α : Type} {n : Nat}

def read
    (cells : Cells α n)
    (i : Nat) : Except Trap α :=
  if h : i < n then
    .ok (cells.read ⟨i, h⟩)
  else
    .error (.noSuchCell i n)

def write
    (cells : Cells α n)
    (i : Nat)
    (a : α) : Except Trap (Cells α n) :=
  if h : i < n then
    .ok (cells.write ⟨i, h⟩ a)
  else
    .error (.noSuchCell i n)

theorem read_of_lt
    (cells : Cells α n)
    {i : Nat}
    (hLt : i < n) :
    read cells i = .ok (cells.read ⟨i, hLt⟩) :=
  dif_pos hLt

theorem write_of_lt
    (cells : Cells α n)
    {i : Nat}
    (hLt : i < n)
    (a : α) :
    write cells i a = .ok (cells.write ⟨i, hLt⟩ a) :=
  dif_pos hLt

/- The number of a place names its cell. -/
@[simp] theorem read_val
    (cells : Cells α n)
    (place : Fin n) :
    read cells place.val = .ok (cells.read place) :=
  read_of_lt cells place.isLt

@[simp] theorem write_val
    (cells : Cells α n)
    (place : Fin n)
    (a : α) :
    write cells place.val a = .ok (cells.write place a) :=
  write_of_lt cells place.isLt a


------------------------------------------------------------
-- Runs of Cells
------------------------------------------------------------

/- The values of the cells in front of a number. -/
def take
    (cells : Cells α n)
    (stop : Nat) : Except Trap (List α) :=
  if stop ≤ n then
    .ok (cells.toList.take stop)
  else
    .error (.pastEnd stop n)

def writeAll
    (cells : Cells α n)
    (first : Nat) : List α → Except Trap (Cells α n)
| [] => .ok cells
| a :: values => do
    let cells ← write cells first a
    writeAll cells (first + 1) values

/- Copy values to the run of cells from one number to another,
  which has to be as long as they are. -/
def copyInto
    (cells : Cells α n)
    (start : Nat)
    (stop : Nat)
    (values : List α) : Except Trap (Cells α n) :=
  if stop < start then
    .error (.reversed start stop)
  else if n < stop then
    .error (.pastEnd stop n)
  else if stop - start ≠ values.length then
    .error (.lengthMismatch values.length (stop - start))
  else
    writeAll cells start values

theorem copyInto_of_le
    (cells : Cells α n)
    {start : Nat}
    {values : List α}
    (hFits : start + values.length ≤ n) :
    copyInto cells start (start + values.length) values =
      writeAll cells start values := by
  unfold copyInto
  rw [if_neg (by omega), if_neg (by omega),
    if_neg (by omega)]

end Checked

end Chip8
