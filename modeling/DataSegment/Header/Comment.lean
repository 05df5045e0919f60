/-
This file removes comments from the lines of a header.
-/

import DataSegment.Text

namespace DataSegment.Header

/-- The code of a line, and whether the line ends inside a block comment. A line comment takes the
rest of the line. A block comment leaves one space where it ends. -/
def withoutComments (inside : Bool) : Text → Text × Bool
  | [] => ([], inside)
  | [letter] => (if inside then [] else [letter], inside)
  | letter :: next :: rest =>
      if inside then
        if letter = '*' ∧ next = '/' then
          let code := withoutComments false rest
          (' ' :: code.1, code.2)
        else withoutComments true (next :: rest)
      else if letter = '/' ∧ next = '/' then ([], false)
      else if letter = '/' ∧ next = '*' then withoutComments true rest
      else
        let code := withoutComments false (next :: rest)
        (letter :: code.1, code.2)

end DataSegment.Header
