import Chip8.Binary.Format

/-
  This file defines the reading of decimal text as a binary
  floating-point number.

  Key definitions include:
    * `Binary.Format.ofDecimal`
    * `Binary.Format.read?`
-/

------------------------------------------------------------
-- Decimal Numbers
------------------------------------------------------------

namespace Chip8

namespace Binary

namespace Format

/-
  A power of ten that reaches beyond the format on both sides:
  from it on a number is infinite, and its inverse is less
  than half of a grain.
-/
def reach (format : Format) : Int :=
  format.unitExponent + 2

/-
  The number of the format next to `mantissa * 10 ^ exponent`.
  Numbers far outside the format are decided by the place of
  their first digit alone.
-/
def ofDecimal
    (format : Format)
    (negative : Bool)
    (mantissa : Nat)
    (exponent : Int) : Value :=
  let order := (Nat.toDigits 10 mantissa).length + exponent
  if mantissa = 0 ∨ order < -format.reach then
    .finite negative 0
  else if format.reach < order then
    .infinite negative
  else
    let numerator :=
      mantissa * Nat.pow 10 exponent.toNat * format.unit
    let denominator := Nat.pow 10 (-exponent).toNat
    format.ofRounded negative
      (format.roundQuotient numerator denominator)

end Format

------------------------------------------------------------
-- Decimal Text
------------------------------------------------------------

/- An optional sign and the text behind it. -/
def splitSign : List Char → Bool × List Char
| '-' :: rest => (true, rest)
| '+' :: rest => (false, rest)
| text => (false, text)

/- The leading digits of a text and the text behind them. -/
def splitDigits (text : List Char) : List Char × List Char :=
  (text.takeWhile Char.isDigit, text.dropWhile Char.isDigit)

/- The value of one digit. -/
def digitValue (c : Char) : Nat :=
  c.toNat - '0'.toNat

/- The number that digits denote. -/
def digitsValue (digits : List Char) : Nat :=
  digits.foldl (fun n c => n * 10 + digitValue c) 0

/-
  The size of an exponent.  Digits behind a number above 65535
  are passed over; no text is long enough to make up for such
  an exponent.
-/
def exponentSize (digits : List Char) : Nat :=
  digits.foldl
    (fun n c => if n < 65536 then n * 10 + digitValue c else n)
    0

/-
  The exponent at the end of a number: nothing at all, or a
  mark, an optional sign and digits.
-/
def readExponent? : List Char → Option Int
| [] => some 0
| mark :: rest =>
    if mark = 'e' ∨ mark = 'E' then
      let (negative, body) := splitSign rest
      let (digits, rest) := splitDigits body
      if digits = [] ∨ rest ≠ [] then
        none
      else
        let size : Int := exponentSize digits
        some (if negative then -size else size)
    else
      none

/- The fraction behind the whole part of a number. -/
def splitFraction : List Char → List Char × List Char
| '.' :: rest => splitDigits rest
| text => ([], text)

/-
  A number without its sign, as mantissa and exponent.  At
  least one digit stands before or behind the point.
-/
def readDecimal? (text : List Char) : Option (Nat × Int) :=
  let (whole, rest) := splitDigits text
  let (fraction, rest) := splitFraction rest
  if whole = [] ∧ fraction = [] then
    none
  else
    (readExponent? rest).map fun exponent =>
      (digitsValue (whole ++ fraction),
        exponent - fraction.length)

/-
  The number of a format that a text denotes: an optional sign
  and a decimal number, an infinity or no number, these in
  either case.
-/
def Format.read?
    (format : Format)
    (text : List Char) : Option Value :=
  let (negative, body) := splitSign text
  let name := String.ofList (body.map Char.toLower)
  if name = "inf" ∨ name = "infinity" then
    some (.infinite negative)
  else if name = "nan" then
    some (.nan negative)
  else
    (readDecimal? body).map fun (mantissa, exponent) =>
      format.ofDecimal negative mantissa exponent

end Binary

end Chip8
