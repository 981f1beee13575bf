/-
  This file defines binary floating-point numbers as exact
  multiples of the least positive number of their format, and
  the rounding of a quotient to a format.

  Key definitions include:
    * `Binary.Format`, `Binary.binary32`, `Binary.binary64`
    * `Binary.twoPow`
    * `Binary.Value`
    * `Format.decode`, `Format.encode`
    * `Format.roundQuotient`
    * `Value.remainder`
-/

------------------------------------------------------------
-- Formats
------------------------------------------------------------

namespace Chip8

namespace Binary

/- The widths of the two lower fields of a number's bits. -/
structure Format where
  fractionBits : Nat
  exponentBits : Nat
deriving DecidableEq

/- Single precision. -/
def binary32 : Format :=
  ⟨23, 8⟩

/- Double precision. -/
def binary64 : Format :=
  ⟨52, 11⟩

/- A power of two. -/
def twoPow (n : Nat) : Nat :=
  Nat.pow 2 n

/-
  A number of a format.  A finite number is a count of grains,
  the least positive number of the format, with a sign; the
  sign of zero and of what is no number is kept too.
-/
inductive Value where
  | finite (negative : Bool) (grains : Nat)
  | infinite (negative : Bool)
  | nan (negative : Bool)
deriving DecidableEq

namespace Format

/- The exponent of two that makes the grains of the number one. -/
def unitExponent (format : Format) : Nat :=
  twoPow (format.exponentBits - 1) - 2 + format.fractionBits

/- The grains of the number one. -/
def unit (format : Format) : Nat :=
  twoPow format.unitExponent

/- The least count of grains that is too large to be finite. -/
def limit (format : Format) : Nat :=
  twoPow (format.fractionBits + twoPow format.exponentBits - 2)

------------------------------------------------------------
-- Bits
------------------------------------------------------------

/- The number that bits denote. -/
def decode
    (format : Format)
    (bits : Nat) : Value :=
  let fraction := bits % twoPow format.fractionBits
  let upper := bits / twoPow format.fractionBits
  let exponent := upper % twoPow format.exponentBits
  let negative := upper / twoPow format.exponentBits % 2 = 1
  if exponent = twoPow format.exponentBits - 1 then
    if fraction = 0 then .infinite negative else .nan negative
  else if exponent = 0 then
    .finite negative fraction
  else
    .finite negative
      ((twoPow format.fractionBits + fraction) *
        twoPow (exponent - 1))

/-
  How many trailing places of a count of grains lie below the
  last place that the format keeps.
-/
def spare
    (format : Format)
    (grains : Nat) : Nat :=
  Nat.log2 grains - format.fractionBits

/-
  The bits of a count of grains without a sign.  The leading
  place of a number above the least binade carries into the
  exponent.
-/
def magnitude
    (format : Format)
    (grains : Nat) : Nat :=
  format.spare grains * twoPow format.fractionBits +
    grains / twoPow (format.spare grains)

/- The bit of a sign. -/
def signBit
    (format : Format)
    (negative : Bool) : Nat :=
  if negative then
    twoPow (format.fractionBits + format.exponentBits)
  else
    0

/- The bits of the infinities without a sign. -/
def infinity (format : Format) : Nat :=
  (twoPow format.exponentBits - 1) *
    twoPow format.fractionBits

/- The bits of a number of the format. -/
def encode
    (format : Format) : Value → Nat
| .finite negative grains =>
    format.signBit negative + format.magnitude grains
| .infinite negative =>
    format.signBit negative + format.infinity
| .nan negative =>
    format.signBit negative + format.infinity +
      twoPow (format.fractionBits - 1)

------------------------------------------------------------
-- Rounding
------------------------------------------------------------

/- The nearest whole number, the even one of two. -/
def nearest
    (numerator : Nat)
    (denominator : Nat) : Nat :=
  let floor := numerator / denominator
  let rest := numerator % denominator
  if 2 * rest < denominator then
    floor
  else if denominator < 2 * rest then
    floor + 1
  else
    floor + floor % 2

/-
  The count of grains next to a quotient of grains that the
  format can hold, exponents without a bound: the quotient's
  trailing places are rounded away, to even in a tie.
-/
def roundQuotient
    (format : Format)
    (numerator : Nat)
    (denominator : Nat) : Nat :=
  let step :=
    twoPow (format.spare (numerator / denominator))
  nearest numerator (denominator * step) * step

/- The number with a sign and a rounded count of grains. -/
def ofRounded
    (format : Format)
    (negative : Bool)
    (grains : Nat) : Value :=
  if grains < format.limit then
    .finite negative grains
  else
    .infinite negative

end Format

------------------------------------------------------------
-- Remainder
------------------------------------------------------------

/-
  The exact remainder of a division toward zero; it has the
  sign of the first number.
-/
def Value.remainder : Value → Value → Value
| .finite negative a, .finite _ b =>
    if b = 0 then .nan false else .finite negative (a % b)
| .finite negative a, .infinite _ => .finite negative a
| .nan negative, _ => .nan negative
| _, .nan negative => .nan negative
| .infinite _, _ => .nan false

end Binary

end Chip8
