import Chip8.Binary.Format

/-
  This file defines the sample formats of sound devices and
  the conversion of a sample in single precision to each.

  Key definitions include:
    * `SampleFormat`
    * `Sample`
    * `SampleFormat.convert`
-/

------------------------------------------------------------
-- Formats
------------------------------------------------------------

namespace Chip8

/- How a device wants its samples. -/
inductive SampleFormat where
  /- Whole numbers of so many bits with a sign. -/
  | signed (bits : Nat)
  /- Whole numbers of so many bits without a sign. -/
  | unsigned (bits : Nat)
  /- Single precision. -/
  | single
  /- Double precision. -/
  | double
deriving DecidableEq

/- A sample in the format of a device. -/
inductive Sample where
  | whole (value : Int)
  | single (value : Float32)
  | double (value : Float)

namespace SampleFormat

/- The middle of the unsigned numbers of a width. -/
def half (bits : Nat) : Nat :=
  Binary.twoPow (bits - 1)

------------------------------------------------------------
-- Conversion
------------------------------------------------------------

/-
  A sample as a signed number of a width.  One stands for half
  the range; parts are cut off toward zero, what is too large
  becomes the nearest bound, and what is no number becomes
  zero.
-/
def toSigned
    (bits : Nat)
    (sample : Float32) : Int :=
  match Binary.binary32.decode sample.toBits.toNat with
  | .nan _ => 0
  | .infinite true => -(half bits : Int)
  | .infinite false => (half bits : Int) - 1
  | .finite negative grains =>
      let whole := grains * half bits / Binary.binary32.unit
      if negative then
        -(min whole (half bits) : Nat)
      else
        (min whole (half bits - 1) : Nat)

/- A sample in the format of a device. -/
def convert
    (format : SampleFormat)
    (sample : Float32) : Sample :=
  match format with
  | .signed bits => .whole (toSigned bits sample)
  | .unsigned bits =>
      .whole (toSigned bits sample + half bits)
  | .single => .single sample
  | .double => .double sample.toFloat

end SampleFormat

end Chip8
