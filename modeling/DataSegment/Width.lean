/-
This file holds the storage widths of declared data.
-/

import DataSegment.Text

namespace DataSegment

/-- Data is declared in units of one, two, four, eight or ten bytes. -/
inductive Width where
  | byte
  | word
  | double
  | quad
  | ten
  deriving DecidableEq, Repr

/-- The formats in which a unit of a width can hold a number with a point. -/
inductive FloatFormat where
  | single
  | double
  | extended
  deriving DecidableEq, Repr

namespace Width

def size : Width → Nat
  | .byte => 1
  | .word => 2
  | .double => 4
  | .quad => 8
  | .ten => 10

/-- Four bytes hold the narrowest number with a point. -/
def floatFormat? : Width → Option FloatFormat
  | .byte | .word => none
  | .double => some .single
  | .quad => some .double
  | .ten => some .extended

/-- A unit keeps the low bits of a value, of which at most 64 are given. -/
def truncate (width : Width) (value : UInt64) : UInt64 :=
  match width with
  | .byte => value &&& 0xff
  | .word => value &&& 0xffff
  | .double => value &&& 0xffffffff
  | .quad | .ten => value

/-- Words that declare data in a listing. -/
def ofDirective? (directive : Text) : Option Width :=
  if directive = ['d', 'b'] then some .byte
  else if directive = ['d', 'w'] then some .word
  else if directive = ['d', 'd'] then some .double
  else if directive = ['d', 'q'] then some .quad
  else if directive = ['d', 't'] then some .ten
  else none

end Width

end DataSegment
