/-
This file reads and writes natural numbers in the bases up to sixteen.
-/

import DataSegment.Text

namespace DataSegment.Text

/-- The value of a character as a hexadecimal digit in either case. -/
def hexValue? (letter : Char) : Option Nat :=
  if '0' ≤ letter && letter ≤ '9' then some (letter.toNat - '0'.toNat)
  else if 'a' ≤ letter && letter ≤ 'f' then some (letter.toNat - 'a'.toNat + 10)
  else if 'A' ≤ letter && letter ≤ 'F' then some (letter.toNat - 'A'.toNat + 10)
  else none

/-- A digit of a base is a hexadecimal digit below the base. -/
def digitValue? (base : Nat) (letter : Char) : Option Nat :=
  (hexValue? letter).filter (· < base)

/-- A digit extends the number read before it. -/
def appendDigit (base value : Nat) (letter : Char) : Option Nat :=
  (digitValue? base letter).map (value * base + ·)

/-- Reads a non-empty run of digits and nothing else. -/
def natural? (base : Nat) (digits : Text) : Option Nat :=
  if digits.isEmpty then none else digits.foldlM (appendDigit base) 0

/-- The digits of a number without leading zeros. -/
def numeral (base value : Nat) : Text := Nat.toDigits base value

/-- Zeros fill a numeral up to a least width. -/
def paddedNumeral (width base value : Nat) : Text := (numeral base value).leftpad width '0'

def decimal (value : Nat) : Text := numeral 10 value

/-- Hexadecimal digits after their mark. -/
def hexadecimal (width value : Nat) : Text := '0' :: 'x' :: paddedNumeral width 16 value

end DataSegment.Text
