/-
This file reads the numbers of a listing.
-/

import DataSegment.Text.Numeral

namespace DataSegment.Listing

open Text

/-- Reads digits after an optional plus sign as a value below 2^64. -/
def unsigned? (base : Nat) (text : Text) : Option UInt64 :=
  let digits := match text with
    | '+' :: digits => digits
    | digits => digits
  ((natural? base digits).filter (· < UInt64.size)).map UInt64.ofNat

/-- A trailing `h` of either case marks hexadecimal digits. -/
def magnitude? (text : Text) : Option UInt64 :=
  match text.getLast? with
  | some letter =>
      if letter == 'h' || letter == 'H' then unsigned? 16 text.dropLast else unsigned? 10 text
  | none => none

/-- A leading minus sign negates modulo 2^64. -/
def number? : Text → Option UInt64
  | '-' :: digits => (magnitude? digits).map (- ·)
  | digits => magnitude? digits

/-- A word that starts like a number is never taken for a name. -/
def startsNumeric (word : Text) : Bool :=
  let digits := match word with
    | '-' :: digits => digits
    | digits => digits
  digits.head?.any Char.isDigit

end DataSegment.Listing
