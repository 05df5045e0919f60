/-
This file tells the operands of a declaration apart.
-/

import DataSegment.Diagnostic
import DataSegment.Listing.Literal
import DataSegment.Width

namespace DataSegment.Listing

open Text

/-- An operand of a list. -/
inductive Operand where
  | label (name : Text)
  /-- Storage without a value. -/
  | unset
  | number (word : Text)
  deriving DecidableEq, Repr

/-- A word of four bytes that does not look like a number is a name. -/
def Operand.ofWord (width : Width) (word : Text) : Operand :=
  if word = ['?'] then .unset
  else if width = .double ∧ startsNumeric word = false then .label word
  else .number word

/-- The word `offset` makes a name of the next word, if there is one. -/
def Operand.ofWords (width : Width) : List Text → List Operand
  | [] => []
  | [word] => [ofWord width word]
  | word :: next :: rest =>
      if word = "offset".toList then .label next :: ofWords width rest
      else ofWord width word :: ofWords width (next :: rest)

/-- What the operands of a declaration amount to. -/
inductive Form where
  | string (operands : List Text)
  /-- A count and the word for the repeated value. -/
  | repeated (count word : Text)
  | packed (word : Text)
  | float (format : FloatFormat) (literal : Text)
  | list (operands : List Operand)
  deriving DecidableEq, Repr

def startsQuoted (word : Text) : Bool := word.head? == some '\''

/-- A repeated value is written in parentheses behind `dup`, which may have any case. -/
def isRepeat (word : Text) : Bool := sameLetters (word.take 4) ['d', 'u', 'p', '(']

/-- A packed literal has four characters between single quotes. -/
def isPacked (word : Text) : Bool :=
  word.length == 6 && startsQuoted word && word.getLast? == some '\''

/-- The form of a declaration that is neither a string nor a repeated value. The first operand
decides; a packed literal or a number with a point must be the only one. -/
def Form.ofFirst (width : Width) (first : Text) (others : List Text) : Except Cause Form :=
  if width = .double ∧ isPacked first then
    if others = [] then .ok (.packed first) else .error (.packedInList first)
  else
    match width.floatFormat?, first.contains '.' with
    | some format, true =>
        if others = [] then .ok (.float format first) else .error (.floatInList first)
    | _, _ => .ok (.list (Operand.ofWords width (first :: others)))

/-- A quoted first operand makes a string of bytes. Two operands can be a count and a repeated
value. -/
def Form.ofOperands (width : Width) (operands : List Text) : Except Cause Form :=
  match operands with
  | [] => .error .missingOperand
  | first :: others =>
      if operands.any List.isEmpty then .error .emptyOperand
      else if width = .byte ∧ startsQuoted first then .ok (.string operands)
      else
        match others with
        | [second] =>
            if isRepeat second then .ok (.repeated first second)
            else ofFirst width first others
        | _ => ofFirst width first others

end DataSegment.Listing
