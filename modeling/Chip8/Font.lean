/-
  This file defines the built-in font: sixteen glyphs of five
  rows, one for every hexadecimal digit.

  Key definitions include:
    * `Font.glyphs`
    * `Font.address`
-/

------------------------------------------------------------
-- Glyphs
------------------------------------------------------------

namespace Chip8

namespace Font

/- The address of the first glyph. -/
def start : UInt16 :=
  0x50

/- The rows of a glyph. -/
def glyphSize : Nat :=
  5

/- The rows of the glyphs 0 to F, one after the other. -/
def glyphs : List UInt8 :=
  [0xF0, 0x90, 0x90, 0x90, 0xF0,
   0x20, 0x60, 0x20, 0x20, 0x70,
   0xF0, 0x10, 0xF0, 0x80, 0xF0,
   0xF0, 0x10, 0xF0, 0x10, 0xF0,
   0x90, 0x90, 0xF0, 0x10, 0x10,
   0xF0, 0x80, 0xF0, 0x10, 0xF0,
   0xF0, 0x80, 0xF0, 0x90, 0xF0,
   0xF0, 0x10, 0x20, 0x40, 0x40,
   0xF0, 0x90, 0xF0, 0x90, 0xF0,
   0xF0, 0x90, 0xF0, 0x10, 0xF0,
   0xF0, 0x90, 0xF0, 0x90, 0x90,
   0xE0, 0x90, 0xE0, 0x90, 0xE0,
   0xF0, 0x80, 0x80, 0x80, 0xF0,
   0xE0, 0x90, 0x90, 0x90, 0xE0,
   0xF0, 0x80, 0xF0, 0x80, 0xF0,
   0xF0, 0x80, 0xF0, 0x80, 0x80]

/-
  The address of the glyph of a digit.  A value above F points
  behind the font.
-/
def address (digit : UInt8) : UInt16 :=
  start + UInt16.ofNat (digit.toNat * glyphSize)

end Font

end Chip8
