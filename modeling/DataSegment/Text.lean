/-
This file fixes the text of listings, headers and output, and cuts it into lines.
-/

namespace DataSegment

/-- Names, lines, paths and whole files are lists of characters. -/
abbrev Text := List Char

namespace Text

/-- What holds of every character of a text is decided character by character. -/
instance (priority := 2000) decidableForallMem (property : Char → Prop) [DecidablePred property]
    (text : Text) : Decidable (∀ letter ∈ text, property letter) :=
  List.decidableBAll property text

/-- A carriage return directly before a line feed belongs to the line ending. -/
def closeLine : Text → Text
  | '\r' :: current => current.reverse
  | current => current.reverse

/-- The open line is held with its last character first. -/
def linesFrom (current : Text) : Text → List Text
  | [] => if current.isEmpty then [] else [current.reverse]
  | '\n' :: rest => closeLine current :: linesFrom [] rest
  | letter :: rest => linesFrom (letter :: current) rest

/-- A last line without a line feed counts when it is not empty. -/
def lines (text : Text) : List Text := linesFrom [] text

@[simp] theorem lines_nil : lines [] = [] := rfl

theorem linesFrom_append_newline (current first rest : Text) :
    linesFrom current (first ++ '\n' :: rest) =
      linesFrom current (first ++ ['\n']) ++ linesFrom [] rest := by
  induction first generalizing current with
  | nil => simp [linesFrom]
  | cons letter first inductionHypothesis =>
      by_cases ends : letter = '\n'
      · subst ends
        simp [linesFrom, inductionHypothesis]
      · simp [linesFrom, inductionHypothesis]

/-- A text that ends in a line feed contributes its lines on their own. -/
theorem lines_append_newline (first rest : Text) :
    lines (first ++ '\n' :: rest) = lines (first ++ ['\n']) ++ lines rest :=
  linesFrom_append_newline [] first rest

theorem linesFrom_of_solid {line : Text} (solid : '\n' ∉ line) (current rest : Text) :
    linesFrom current (line ++ '\n' :: rest) =
      closeLine (line.reverse ++ current) :: linesFrom [] rest := by
  induction line generalizing current with
  | nil => simp [linesFrom]
  | cons letter line inductionHypothesis =>
      simp only [List.mem_cons, not_or] at solid
      rw [List.cons_append, linesFrom, inductionHypothesis solid.2, List.reverse_cons,
        List.append_assoc, List.singleton_append]
      exact fun same => solid.1 same.symm

theorem closeLine_reverse {line : Text} (plain : line.getLast? ≠ some '\r') :
    closeLine line.reverse = line := by
  unfold closeLine
  split
  · rename_i current found
    have := congrArg List.reverse found
    simp_all
  · exact line.reverse_reverse

/-- A line that holds no line ending of its own comes back whole. -/
theorem lines_cons {line : Text} (solid : '\n' ∉ line) (plain : line.getLast? ≠ some '\r')
    (rest : Text) : lines (line ++ '\n' :: rest) = line :: lines rest := by
  rw [lines, linesFrom_of_solid solid, List.append_nil, closeLine_reverse plain, lines]

/-- Joins texts with a separator between neighbours. -/
def join (separator : Text) (parts : List Text) : Text := separator.intercalate parts

/-- ASCII letters count as equal in either case. -/
def sameLetters (first second : Text) : Bool :=
  first.map Char.toLower == second.map Char.toLower

end Text

end DataSegment
