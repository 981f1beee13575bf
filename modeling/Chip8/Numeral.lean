import Chip8.Nibble

/-
  This file defines the numerals of listings and notices:
  decimal, and hexadecimal with a least width.

  Key definitions include:
    * `Numeral.decimal`
    * `Numeral.hexDigits`, `Numeral.padded`
    * `Numeral.byte`, `Numeral.address`, `Numeral.word`
-/

------------------------------------------------------------
-- Digits
------------------------------------------------------------

namespace Chip8

namespace Numeral

/- The decimal digits of a number. -/
def decimal (n : Nat) : List Char :=
  Nat.toDigits 10 n

/-
  The lower-case hexadecimal digits of a number, most
  significant first.
-/
def hexDigits (n : Nat) : List Char :=
  if n < 16 then
    [Nat.digitChar n]
  else
    hexDigits (n / 16) ++ [Nat.digitChar (n % 16)]
termination_by n
decreasing_by omega

/- The upper-case digit of a nibble. -/
def upperDigit (d : Nibble) : Char :=
  (Nat.digitChar d.val).toUpper

------------------------------------------------------------
-- Marked Numerals
------------------------------------------------------------

/- Digits filled up with zeros on the left to a least width. -/
def padded
    (width : Nat)
    (n : Nat) : List Char :=
  List.replicate (width - (hexDigits n).length) '0' ++
    hexDigits n

/- Padded digits behind the mark `0x`. -/
def marked
    (width : Nat)
    (n : Nat) : List Char :=
  '0' :: 'x' :: padded width n

/- Constants have two digits. -/
def byte (b : UInt8) : List Char :=
  marked 2 b.toNat

/- Addresses have at least three digits, as twelve bits need. -/
def address (a : UInt16) : List Char :=
  marked 3 a.toNat

/- Instruction words have four digits. -/
def word (w : UInt16) : List Char :=
  marked 4 w.toNat

------------------------------------------------------------
-- Strings
------------------------------------------------------------

/- A decimal number in a sentence. -/
def decimalText (n : Nat) : String :=
  String.ofList (decimal n)

/- An address in a sentence. -/
def addressText (a : UInt16) : String :=
  String.ofList (address a)

/- An instruction word in a sentence. -/
def wordText (w : UInt16) : String :=
  String.ofList (word w)

/- A key or register number in a sentence. -/
def upperText (d : Nibble) : String :=
  String.ofList [upperDigit d]

end Numeral

end Chip8
