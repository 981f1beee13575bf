import Chip8.Cells

/-
  This file defines the screen of 64 by 32 pixels and how
  sprites are drawn onto it.

  Key definitions include:
    * `Screen`
    * `Screen.position`, `Screen.pixel`
    * `Screen.clear`
    * `Sprite.hits`
    * `Screen.draw`
    * `Screen.text`
-/

------------------------------------------------------------
-- Screen
------------------------------------------------------------

namespace Chip8

/- The pixels row by row, the top left one first. -/
structure Screen where
  cells : Cells Bool 2048
deriving DecidableEq

namespace Screen

/- Pixels in a row. -/
def width : Nat :=
  64

/- Rows of the screen. -/
def height : Nat :=
  32

/- No pixel lit. -/
def blank : Screen :=
  ⟨.fill 2048 false⟩

/- The place of a pixel; both coordinates wrap around. -/
def position
    (x : Nat)
    (y : Nat) : Fin 2048 :=
  ⟨y % 32 * 64 + x % 64, by omega⟩

/- Whether a pixel is lit. -/
def pixel
    (screen : Screen)
    (x : Nat)
    (y : Nat) : Bool :=
  screen.cells.read (position x y)

/- Switch a pixel over. -/
def toggle
    (screen : Screen)
    (p : Fin 2048) : Screen :=
  ⟨screen.cells.write p (!screen.cells.read p)⟩

/- Switch all pixels off. -/
def clear (screen : Screen) : Screen :=
  ⟨screen.cells.overwrite false⟩

@[simp] theorem clear_eq_blank (screen : Screen) :
    screen.clear = blank :=
  congrArg Screen.mk (Cells.overwrite_eq_fill _ false)

end Screen

------------------------------------------------------------
-- Sprites
------------------------------------------------------------

/-
  The rows of a sprite.  A row is a byte whose most significant
  bit is the leftmost pixel.
-/
abbrev Sprite :=
  List UInt8

namespace Sprite

/- Whether a row has a pixel in a column. -/
def hasColumn
    (row : UInt8)
    (column : Nat) : Bool :=
  row.toNat.testBit (7 - column)

/- The places that one row hits, from left to right. -/
def rowHits
    (x : Nat)
    (y : Nat)
    (row : UInt8) : List (Fin 2048) :=
  ((List.range 8).filter (hasColumn row)).map
    fun column => Screen.position (x + column) y

/- The places that a sprite hits, row by row. -/
def hits
    (x : Nat)
    (y : Nat) : Sprite → List (Fin 2048)
| [] => []
| row :: rows => rowHits x y row ++ hits x (y + 1) rows

end Sprite

------------------------------------------------------------
-- Drawing
------------------------------------------------------------

namespace Screen

/-
  Switch places over one after the other, and tell whether a
  lit pixel was met.
-/
def toggleAll
    (screen : Screen) : List (Fin 2048) → Screen × Bool
| [] => (screen, false)
| p :: ps =>
    let met := screen.cells.read p
    let rest := (screen.toggle p).toggleAll ps
    (rest.1, met || rest.2)

/-
  Draw a sprite with its top left corner at a pixel, and tell
  whether a lit pixel was switched off.
-/
def draw
    (screen : Screen)
    (x : UInt8)
    (y : UInt8)
    (sprite : Sprite) : Screen × Bool :=
  screen.toggleAll (sprite.hits x.toNat y.toNat)

------------------------------------------------------------
-- Views
------------------------------------------------------------

/- The pixels row by row. -/
def pixels (screen : Screen) : List Bool :=
  screen.cells.toList

/- A copy of the pixels to be kept. -/
def snapshot (screen : Screen) : Array Bool :=
  screen.cells.toArray

/- How many pixels are lit. -/
def lit (screen : Screen) : Nat :=
  screen.pixels.count true

/- The sign of a pixel. -/
def sign (on : Bool) : Char :=
  if on then '#' else '.'

/- The signs of one row, which is cut out of the pixels. -/
def row
    (screen : Screen)
    (y : Nat) : List Char :=
  ((screen.pixels.drop (y * width)).take width).map sign

/- The rows as lines, each with its end. -/
def text (screen : Screen) : String :=
  String.ofList
    ((List.range height).flatMap fun y =>
      screen.row y ++ ['\n'])

@[simp] theorem length_pixels (screen : Screen) :
    screen.pixels.length = 2048 :=
  Vector.length_toList

------------------------------------------------------------
-- Toggling
------------------------------------------------------------

theorem read_toggle
    (screen : Screen)
    (p q : Fin 2048) :
    (screen.toggle p).cells.read q =
      if p = q then !screen.cells.read q
      else screen.cells.read q := by
  by_cases h : p = q
  · subst h
    simp [toggle]
  · simp [toggle, h, Cells.read_write_of_ne h]

/- Places may be switched over in two parts. -/
theorem toggleAll_append
    (screen : Screen)
    (ps qs : List (Fin 2048)) :
    screen.toggleAll (ps ++ qs) =
      (((screen.toggleAll ps).1.toggleAll qs).1,
        (screen.toggleAll ps).2 ||
          ((screen.toggleAll ps).1.toggleAll qs).2) := by
  induction ps generalizing screen with
  | nil => simp [toggleAll]
  | cons p ps ih => simp [toggleAll, ih, Bool.or_assoc]

end Screen

end Chip8
