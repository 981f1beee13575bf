import Chip8.Proofs.Checked.Access
import Chip8.Screen

/-
  This file defines drawing with checked accesses: column by
  column and row by row, the place of each pixel computed in
  numbers of bounded width.  For sprites of a length that the
  width can count it never traps and draws the same.

  Key definitions include:
    * `Checked.place`, `Checked.pixel`
    * `Checked.drawColumn`, `Checked.draw`

  The main statement is:
    * `Checked.draw_eq`
-/

------------------------------------------------------------
-- Pixels
------------------------------------------------------------

namespace Chip8

namespace Checked

/- The number of the cell of a pixel. -/
def place (x y : Nat) : Except Trap Nat := do
  let start ← mul sizeRange (y % 32) 64
  add sizeRange start (x % 64)

def pixel
    (screen : Screen)
    (x y : Nat) : Except Trap Bool := do
  let p ← place x y
  read screen.cells p

@[simp] theorem place_eq (x y : Nat) :
    place x y = .ok (Screen.position x y).val := by
  have hStart : y % 32 * 64 < sizeRange := by
    simp only [sizeRange]
    omega
  have hPlace : y % 32 * 64 + x % 64 < sizeRange := by
    simp only [sizeRange]
    omega
  simp [place, mul_of_lt hStart, add_of_lt hPlace,
    Screen.position]

@[simp] theorem pixel_eq
    (screen : Screen)
    (x y : Nat) :
    pixel screen x y = .ok (screen.pixel x y) := by
  simp [pixel, Screen.pixel]

------------------------------------------------------------
-- Columns
------------------------------------------------------------

/-
  Draw column `j` of row `i` of a sprite, and tell whether a
  lit pixel was switched off.
-/
def drawColumn
    (screen : Screen)
    (x y : Nat)
    (row : UInt8)
    (i j : Nat) : Except Trap (Screen × Bool) := do
  let places ← sub 7 j
  let bits ← shiftRight 8 row.toNat places
  if bits % 2 = 1 then
    let across ← add sizeRange x j
    let down ← add sizeRange y i
    let p ← place across down
    let lit ← read screen.cells p
    let cells ← write screen.cells p (!lit)
    .ok (⟨cells⟩, lit)
  else
    .ok (screen, false)

def drawColumns
    (screen : Screen)
    (x y : Nat)
    (row : UInt8)
    (i : Nat) : List Nat → Except Trap (Screen × Bool)
| [] => .ok (screen, false)
| j :: columns => do
    let first ← drawColumn screen x y row i j
    let rest ← drawColumns first.1 x y row i columns
    .ok (rest.1, first.2 || rest.2)

theorem hasColumn_iff
    (row : UInt8)
    (j : Nat) :
    Sprite.hasColumn row j = true ↔
      row.toNat >>> (7 - j) % 2 = 1 := by
  unfold Sprite.hasColumn
  rw [Nat.testBit_eq_decide_div_mod_eq,
    Nat.shiftRight_eq_div_pow, decide_eq_true_iff]

variable {x y i : Nat}

/- A column is drawn by switching the place that it hits. -/
theorem drawColumn_eq
    (screen : Screen)
    (row : UInt8)
    {j : Nat}
    (hColumn : j < 8)
    (hAcross : x + 8 ≤ sizeRange)
    (hDown : y + i < sizeRange) :
    drawColumn screen x y row i j =
      .ok
        (if Sprite.hasColumn row j then
          (screen.toggle (Screen.position (x + j) (y + i)),
            screen.cells.read
              (Screen.position (x + j) (y + i)))
        else
          (screen, false)) := by
  have hPlaces : j ≤ 7 := by omega
  have hBits : 7 - j < 8 := by omega
  have hRight : x + j < sizeRange := by omega
  have hHit := hasColumn_iff row j
  cases hHas : Sprite.hasColumn row j with
  | true =>
      simp [drawColumn, sub_of_le hPlaces,
        shiftRight_of_lt _ hBits, hHit.mp hHas,
        add_of_lt hRight, add_of_lt hDown, Screen.toggle]
  | false =>
      have hMiss : ¬ row.toNat >>> (7 - j) % 2 = 1 := by
        rw [← hHit, hHas]
        exact Bool.false_ne_true
      simp [drawColumn, sub_of_le hPlaces,
        shiftRight_of_lt _ hBits, hMiss]

theorem drawColumns_eq
    (screen : Screen)
    (row : UInt8)
    {columns : List Nat}
    (hColumns : ∀ j ∈ columns, j < 8)
    (hAcross : x + 8 ≤ sizeRange)
    (hDown : y + i < sizeRange) :
    drawColumns screen x y row i columns =
      .ok
        (screen.toggleAll
          ((columns.filter (Sprite.hasColumn row)).map
            fun j => Screen.position (x + j) (y + i))) := by
  induction columns generalizing screen with
  | nil => rfl
  | cons j columns ih =>
      rcases List.forall_mem_cons.mp hColumns with
        ⟨hFirst, hRest⟩
      have hColumn :=
        drawColumn_eq screen row hFirst hAcross hDown
      cases hHas : Sprite.hasColumn row j with
      | true =>
          simp [drawColumns, hColumn, hHas, ih _ hRest,
            Screen.toggleAll]
      | false =>
          simp [drawColumns, hColumn, hHas, ih _ hRest]

------------------------------------------------------------
-- Sprites
------------------------------------------------------------

def drawRows
    (screen : Screen)
    (x y : Nat)
    (i : Nat) : Sprite → Except Trap (Screen × Bool)
| [] => .ok (screen, false)
| row :: rows => do
    let first ←
      drawColumns screen x y row i (List.range 8)
    let rest ← drawRows first.1 x y (i + 1) rows
    .ok (rest.1, first.2 || rest.2)

def draw
    (screen : Screen)
    (x y : UInt8)
    (sprite : Sprite) : Except Trap (Screen × Bool) :=
  drawRows screen x.toNat y.toNat 0 sprite

theorem drawRows_eq
    (screen : Screen)
    (sprite : Sprite)
    (hAcross : x + 8 ≤ sizeRange)
    (hDown : y + i + sprite.length ≤ sizeRange) :
    drawRows screen x y i sprite =
      .ok (screen.toggleAll (sprite.hits x (y + i))) := by
  induction sprite generalizing screen i with
  | nil => rfl
  | cons row rows ih =>
      rw [List.length_cons] at hDown
      have hColumns : ∀ j ∈ List.range 8, j < 8 := by
        intro j hMem
        exact List.mem_range.mp hMem
      have hHits :
          Sprite.hits x (y + i) (row :: rows) =
            Sprite.rowHits x (y + i) row ++
              Sprite.hits x (y + (i + 1)) rows :=
        rfl
      have hRow :=
        drawColumns_eq screen row hColumns hAcross
          (show y + i < sizeRange by omega)
      have hRows (first : Screen) :=
        ih first (i := i + 1) (by omega)
      simp [drawRows, hRow, hRows, hHits, Sprite.rowHits,
        Screen.toggleAll_append]

theorem draw_eq
    (screen : Screen)
    (x y : UInt8)
    {sprite : Sprite}
    (hLength : sprite.length ≤ 256) :
    draw screen x y sprite = .ok (screen.draw x y sprite) := by
  have hX := x.toNat_lt
  have hY := y.toNat_lt
  apply drawRows_eq
  · simp only [sizeRange]
    omega
  · simp only [sizeRange]
    omega

end Checked

end Chip8
