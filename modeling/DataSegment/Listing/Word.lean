/-
This file cuts a line of a listing into words.
-/

import DataSegment.Text

namespace DataSegment.Listing

def isBlank (letter : Char) : Bool :=
  letter == ' ' || letter == '\t' || letter == '\r' || letter == '\n'

def dropBlanks (line : Text) : Text := line.dropWhile isBlank

/-- A comment starts at a semicolon and takes the rest of the line. -/
def hasNoWord (line : Text) : Bool :=
  match dropBlanks line with
  | [] => true
  | letter :: _ => letter == ';'

/-- Splits a line where a blank or a comma ends its first word. When `quoted` is set, a single
quote opens and closes a literal, in which neither does. -/
def spanWord (quoted inside : Bool) : Text → Text × Text
  | [] => ([], [])
  | letter :: rest =>
      let inside := if quoted && letter == '\'' then !inside else inside
      if !inside && (isBlank letter || letter == ',') then ([], letter :: rest)
      else
        let halves := spanWord quoted inside rest
        (letter :: halves.1, halves.2)

theorem spanWord_append (quoted inside : Bool) (line : Text) :
    (spanWord quoted inside line).1 ++ (spanWord quoted inside line).2 = line := by
  induction line generalizing inside with
  | nil => rfl
  | cons letter rest inductionHypothesis =>
      unfold spanWord
      dsimp only
      generalize (if quoted && letter == '\'' then !inside else inside) = next
      split
      · rfl
      · simp [inductionHypothesis]

/-- Only a comma can leave a word empty after the blanks before it. -/
theorem eq_comma_of_spanWord {quoted inside : Bool} {letter : Char} {rest : Text}
    (empty : (spanWord quoted inside (letter :: rest)).1 = []) (solid : isBlank letter = false) :
    letter = ',' := by
  unfold spanWord at empty
  dsimp only at empty
  generalize (if quoted && letter == '\'' then !inside else inside) = next at empty
  split at empty
  · rename_i condition
    simp only [solid, Bool.false_or, Bool.and_eq_true, beq_iff_eq] at condition
    exact condition.2
  · simp at empty

/-- A word of the source, of which the first characters are kept. -/
structure Word where
  source : Text
  deriving DecidableEq, Repr

/-- The number of characters that are kept of a word. -/
def Word.limit : Nat := 255

def Word.text (word : Word) : Text := word.source.take Word.limit

def Word.truncated (word : Word) : Bool := decide (Word.limit < word.source.length)

/-- The first word after any blanks, and what follows it. -/
def firstWord (quoted : Bool) (line : Text) : Word × Text :=
  let halves := spanWord quoted false (dropBlanks line)
  (⟨halves.1⟩, halves.2)

/-- One comma may stand among the blanks between two words. -/
def dropSeparator (line : Text) : Text :=
  match dropBlanks line with
  | [] => []
  | letter :: rest => if letter == ',' then rest else letter :: rest

theorem dropBlanks_length (line : Text) : (dropBlanks line).length ≤ line.length :=
  (List.dropWhile_sublist isBlank).length_le

theorem dropSeparator_length (line : Text) : (dropSeparator line).length ≤ line.length := by
  have bound := dropBlanks_length line
  unfold dropSeparator
  split
  · exact Nat.zero_le _
  · rename_i letter rest found
    rw [found, List.length_cons] at bound
    split
    · omega
    · simpa using bound

/-- Each word takes at least one character off the line, be it only a comma. -/
theorem dropSeparator_firstWord_length (quoted : Bool) {line : Text}
    (more : hasNoWord line = false) :
    (dropSeparator (firstWord quoted line).2).length < line.length := by
  have bound := dropBlanks_length line
  have parts := spanWord_append quoted false (dropBlanks line)
  have start : (dropBlanks line).head?.all (!isBlank ·) := by
    unfold dropBlanks
    cases h : line.dropWhile isBlank with
    | nil => rfl
    | cons letter rest =>
        have := List.head?_dropWhile_not isBlank line
        simp_all
  have filled : dropBlanks line ≠ [] := by
    intro empty
    simp [hasNoWord, empty] at more
  obtain ⟨letter, rest, found⟩ := List.exists_cons_of_ne_nil filled
  have size := dropSeparator_length (firstWord quoted line).2
  simp only [firstWord] at size ⊢
  cases word : (spanWord quoted false (dropBlanks line)).1 with
  | cons head tail =>
      have total := congrArg List.length parts
      rw [List.length_append, word, List.length_cons] at total
      omega
  | nil =>
      rw [word, List.nil_append] at parts
      rw [parts, found]
      have solid : isBlank letter = false := by simpa [found] using start
      have comma : letter = ',' := by
        rw [found] at word
        exact eq_comma_of_spanWord word solid
      subst comma
      rw [found, List.length_cons] at bound
      have : dropSeparator (',' :: rest) = rest := by
        simp [dropSeparator, dropBlanks, isBlank]
      rw [this]
      omega

/-- The words of a line up to its comment. -/
def words (line : Text) : List Word :=
  if hasNoWord line then []
  else (firstWord true line).1 :: words (dropSeparator (firstWord true line).2)
termination_by line.length
decreasing_by
  rename_i more
  exact dropSeparator_firstWord_length true (by simpa using more)

end DataSegment.Listing
