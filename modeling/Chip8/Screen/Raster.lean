import Chip8.Screen

/-
  This file defines how the screen is shown in a window: the
  colour of a pixel, the filling of a buffer of colours and the
  magnifications that a window can have.

  Key definitions include:
    * `Colour`
    * `Screen.rasterize`
    * `Magnification.ofFactor`
-/

------------------------------------------------------------
-- Colours
------------------------------------------------------------

namespace Chip8

namespace Colour

/- Red, green and blue in one word, blue lowest. -/
def ofRGB
    (red : UInt8)
    (green : UInt8)
    (blue : UInt8) : UInt32 :=
  UInt32.ofNat
    (red.toNat * 65536 + green.toNat * 256 + blue.toNat)

/- The colour of a lit pixel. -/
def on : UInt32 :=
  ofRGB 0 127 255

/- The colour of a dark pixel. -/
def off : UInt32 :=
  ofRGB 0 0 0

/- The colour of a pixel. -/
def ofPixel (lit : Bool) : UInt32 :=
  if lit then on else off

end Colour

------------------------------------------------------------
-- Filling a Buffer
------------------------------------------------------------

namespace Screen

/-
  Overwrite the words of a buffer with colours as far as both
  reach; further words keep their value.
-/
def paint : List Bool → List UInt32 → List UInt32
| [], buffer => buffer
| _ :: _, [] => []
| lit :: pixels, _ :: buffer =>
    Colour.ofPixel lit :: paint pixels buffer

/- Show the screen in a buffer of colours. -/
def rasterize
    (screen : Screen)
    (buffer : List UInt32) : List UInt32 :=
  paint screen.pixels buffer

end Screen

------------------------------------------------------------
-- Magnification
------------------------------------------------------------

/- The magnifications that a window can have. -/
inductive Magnification where
  | x1
  | x2
  | x4
  | x8
  | x16
  | x32
deriving DecidableEq

namespace Magnification

/-
  The least magnification that is not below the wanted factor,
  or the greatest one.
-/
def ofFactor (factor : UInt32) : Magnification :=
  if factor ≤ 1 then
    .x1
  else if factor ≤ 2 then
    .x2
  else if factor ≤ 4 then
    .x4
  else if factor ≤ 8 then
    .x8
  else if factor ≤ 16 then
    .x16
  else
    .x32

/- How many window pixels a screen pixel is wide. -/
def factor : Magnification → Nat
| .x1 => 1
| .x2 => 2
| .x4 => 4
| .x8 => 8
| .x16 => 16
| .x32 => 32

end Magnification

end Chip8
