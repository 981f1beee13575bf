import Chip8.Numeral
import Chip8.Screen.Raster

/-
  This file defines the picture of a frame: the raster of the
  screen, each pixel magnified to a square, as the bytes of a
  portable pixel map.

  Key definitions include:
    * `Picture.header`
    * `Picture.ofScreen`
-/

------------------------------------------------------------
-- Pictures
------------------------------------------------------------

namespace Chip8

namespace Picture

/- The size of a picture and the largest part of a colour. -/
def header (magnification : Magnification) : String :=
  let width := Screen.width * magnification.factor
  let height := Screen.height * magnification.factor
  "P6 " ++ Numeral.decimalText width ++ " " ++
    Numeral.decimalText height ++ " 255\n"

/- Red, green and blue of a colour. -/
def parts (colour : UInt32) : List UInt8 :=
  [(colour >>> 16).toUInt8, (colour >>> 8).toUInt8,
   colour.toUInt8]

/- The bytes of one row of pixels. -/
def row
    (magnification : Magnification)
    (colours : List UInt32) : List UInt8 :=
  colours.flatMap fun colour =>
    (List.replicate magnification.factor (parts colour)).flatten

/- The bytes of all rows of a raster. -/
def rows
    (magnification : Magnification)
    (raster : List UInt32) : List UInt8 :=
  (List.range Screen.height).flatMap fun y =>
    let colours :=
      (raster.drop (y * Screen.width)).take Screen.width
    (List.replicate magnification.factor
      (row magnification colours)).flatten

/- The picture of the screen. -/
def ofScreen
    (magnification : Magnification)
    (screen : Screen) : ByteArray :=
  let raster :=
    screen.rasterize (List.replicate 2048 Colour.off)
  (header magnification).toUTF8 ++
    ⟨(rows magnification raster).toArray⟩

end Picture

end Chip8
