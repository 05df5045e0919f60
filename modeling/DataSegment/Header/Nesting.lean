/-
This file follows the parentheses of a header statement.
-/

import DataSegment.Text

namespace DataSegment.Header

/-- Puts a character in front of the first of two halves. -/
def extendHalf (letter : Char) (halves : Text × Text) : Text × Text :=
  (letter :: halves.1, halves.2)

/-- Splits what follows an opening parenthesis at its partner, which belongs to neither half.
Here `depth` counts the parentheses that are open inside. -/
def closing? (depth : Nat) : Text → Option (Text × Text)
  | [] => none
  | letter :: rest =>
      if letter = '(' then (closing? (depth + 1) rest).map (extendHalf letter)
      else if letter = ')' then
        match depth with
        | 0 => some ([], rest)
        | outer + 1 => (closing? outer rest).map (extendHalf letter)
      else (closing? depth rest).map (extendHalf letter)

/-- The two halves and the closing parenthesis make up the text. -/
theorem eq_append_of_closing? {depth : Nat} {text inner after : Text}
    (found : closing? depth text = some (inner, after)) : text = inner ++ ')' :: after := by
  induction text generalizing depth inner with
  | nil => simp [closing?] at found
  | cons letter rest inductionHypothesis =>
      have step {depth : Nat} (h : (closing? depth rest).map (extendHalf letter) =
          some (inner, after)) : letter :: rest = inner ++ ')' :: after := by
        simp only [Option.map_eq_some_iff, extendHalf, Prod.mk.injEq, Prod.exists] at h
        obtain ⟨first, second, split, rfl, rfl⟩ := h
        simpa using inductionHypothesis split
      unfold closing? at found
      split at found
      · exact step found
      · split at found
        · rename_i isClosing
          split at found
          · simp only [Option.some.injEq, Prod.mk.injEq] at found
            simp [← found.1, found.2, isClosing]
          · exact step found
        · exact step found

/-- Puts a character in front of the first part. -/
def extendPart (letter : Char) : List Text → List Text
  | [] => [[letter]]
  | part :: others => (letter :: part) :: others

/-- Splits at the commas outside parentheses. -/
def splitCommas (depth : Nat) : Text → List Text
  | [] => [[]]
  | letter :: rest =>
      if letter = '(' then extendPart letter (splitCommas (depth + 1) rest)
      else if letter = ')' then extendPart letter (splitCommas (depth - 1) rest)
      else if letter = ',' ∧ depth = 0 then [] :: splitCommas depth rest
      else extendPart letter (splitCommas depth rest)

end DataSegment.Header
