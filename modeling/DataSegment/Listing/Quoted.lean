/-
This file reads the quoted text of a listing, in which a doubled quote stands for one.
-/

import DataSegment.Text

namespace DataSegment.Listing

/-- How the text after an opening quote goes on. -/
inductive Quoted where
  /-- The closing quote ends the operand. -/
  | closed (content : Text)
  /-- Something follows the closing quote. -/
  | trailed
  /-- There is no closing quote. -/
  | unclosed
  deriving DecidableEq, Repr

def Quoted.cons (letter : Char) : Quoted → Quoted
  | .closed content => .closed (letter :: content)
  | .trailed => .trailed
  | .unclosed => .unclosed

/-- Quotes pair up from the left; an unpaired one closes the text. -/
def Quoted.ofBody : Text → Quoted
  | [] => .unclosed
  | '\'' :: '\'' :: rest => (ofBody rest).cons '\''
  | ['\''] => .closed []
  | '\'' :: _ :: _ => .trailed
  | letter :: rest => (ofBody rest).cons letter

end DataSegment.Listing
