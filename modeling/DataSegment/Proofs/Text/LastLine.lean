import DataSegment.Proofs.Text.Lines
import Mathlib.Data.List.TakeWhile

namespace DataSegment.Text

/-- A text that ends where a line ends. -/
def IsWhole (front : Text) : Prop := ∀ letter, front.getLast? = some letter → letter = '\n'

/-- The lines of a text up to its last line feed. -/
def wholeLines (text : Text) : Text := (text.reverse.dropWhile (· != '\n')).reverse

/-- What stands behind the last line feed of a text. -/
def openLine (text : Text) : Text := (text.reverse.takeWhile (· != '\n')).reverse

theorem wholeLines_append_openLine (text : Text) : wholeLines text ++ openLine text = text := by
  rw [wholeLines, openLine, ← List.reverse_append, List.takeWhile_append_dropWhile,
    List.reverse_reverse]

theorem isPrefix_wholeLines (text : Text) : wholeLines text <+: text :=
  ⟨openLine text, wholeLines_append_openLine text⟩

theorem isWhole_wholeLines (text : Text) : IsWhole (wholeLines text) := by
  intro letter last
  rw [wholeLines, List.getLast?_reverse] at last
  have stops := List.head?_dropWhile_not (· != '\n') text.reverse
  rw [last] at stops
  simpa using stops

theorem not_mem_openLine (text : Text) : '\n' ∉ openLine text := by
  intro member
  exact absurd (List.mem_takeWhile_imp (List.mem_reverse.1 member)) (by decide)

theorem count_wholeLines (text : Text) : (wholeLines text).count '\n' = text.count '\n' := by
  have parts := congrArg (List.count '\n') (wholeLines_append_openLine text)
  rw [List.count_append, List.count_eq_zero_of_not_mem (not_mem_openLine text)] at parts
  exact parts

namespace IsWhole

variable {front : Text}

theorem eq_nil_or (whole : IsWhole front) : front = [] ∨ ∃ body, front = body ++ ['\n'] := by
  cases last : front.getLast? with
  | none => exact .inl (List.getLast?_eq_none_iff.1 last)
  | some letter =>
      obtain ⟨body, rfl⟩ := List.getLast?_eq_some_iff.1 last
      exact .inr ⟨body, by rw [whole letter last]⟩

theorem lines_append (whole : IsWhole front) (rest : Text) :
    lines (front ++ rest) = lines front ++ lines rest := by
  obtain rfl | ⟨body, rfl⟩ := whole.eq_nil_or
  · rfl
  · rw [List.append_assoc]
    exact lines_append_newline body rest

theorem length_linesFrom (current body : Text) :
    (linesFrom current (body ++ ['\n'])).length = body.count '\n' + 1 := by
  induction body generalizing current with
  | nil => rfl
  | cons letter body inductionHypothesis =>
      by_cases ends : letter = '\n'
      · subst ends
        rw [List.cons_append, linesFrom, List.length_cons, inductionHypothesis,
          List.count_cons_self]
      · rw [List.cons_append, linesFrom, inductionHypothesis, List.count_cons_of_ne ends]
        exact ends

theorem length_lines (whole : IsWhole front) : (lines front).length = front.count '\n' := by
  obtain rfl | ⟨body, rfl⟩ := whole.eq_nil_or
  · rfl
  · rw [lines, length_linesFrom, List.count_append]
    rfl

end IsWhole

/-- A line and its ending, which the last line of a text can lack. -/
inductive IsLine : Text → Text → Prop where
  | last {line : Text} (solid : '\n' ∉ line) (filled : line ≠ []) : IsLine line []
  | feed {line : Text} (solid : '\n' ∉ line) (plain : line.getLast? ≠ some '\r') :
      IsLine line ['\n']
  | carriage {line : Text} (solid : '\n' ∉ line) : IsLine line ['\r', '\n']

theorem IsLine.lines_eq {line ending : Text} (isLine : IsLine line ending) :
    lines (line ++ ending) = [line] := by
  cases isLine with
  | last solid filled => rw [List.append_nil, lines_eq_singleton solid filled]
  | feed solid plain => exact lines_cons solid plain []
  | carriage solid =>
      have both : '\n' ∉ line ++ ['\r'] := by simp [solid]
      rw [List.append_cons, lines, linesFrom_of_solid both]
      simp [closeLine, linesFrom]

theorem IsLine.solid {line ending : Text} (isLine : IsLine line ending) : '\n' ∉ line := by
  cases isLine <;> assumption

/-- A line feed is the last character of a line with its ending. -/
theorem IsLine.eq_nil_of_newline {line ending first rest : Text} (isLine : IsLine line ending)
    (parts : line ++ ending = first ++ '\n' :: rest) : rest = [] := by
  -- What stands in front of the last character holds no line feed.
  have early {body : Text} (solid : '\n' ∉ body) (same : body ++ ['\n'] = first ++ '\n' :: rest) :
      rest = [] := by
    obtain rfl | ⟨rest, letter, rfl⟩ := List.eq_nil_or_concat rest
    · rfl
    · have cut : body ++ ['\n'] = (first ++ '\n' :: rest) ++ [letter] := by simpa using same
      rw [(List.append_inj' cut rfl).1] at solid
      simp at solid
  cases isLine with
  | last solid filled =>
      rw [List.append_nil] at parts
      rw [parts] at solid
      simp at solid
  | feed solid plain => exact early solid parts
  | carriage solid =>
      have both : '\n' ∉ line ++ ['\r'] := by simp [solid]
      exact early both (by simpa using parts)

/-- Whole lines in front of a place of a text leave out its last line, or they are all of it. -/
theorem IsWhole.prefix_append_line {front line ending other : Text} (whole : IsWhole other)
    (isLine : IsLine line ending) (found : other <+: front ++ (line ++ ending)) :
    other <+: front ∨ other = front ++ (line ++ ending) := by
  rcases List.prefix_or_prefix_of_prefix found (List.prefix_append front _) with inside | longer
  · exact .inl inside
  · obtain ⟨more, rfl⟩ := longer
    obtain ⟨rest, parts⟩ := (List.prefix_append_right_inj front).1 found
    obtain rfl | ⟨more, letter, rfl⟩ := List.eq_nil_or_concat more
    · exact .inl (by simp)
    · obtain rfl := whole letter (by simp)
      have none := isLine.eq_nil_of_newline
        (show line ++ ending = more ++ '\n' :: rest by simpa using parts.symm)
      rw [none, List.append_nil] at parts
      exact .inr (by rw [parts])

theorem exists_lastLine {text : Text} (filled : text ≠ []) :
    ∃ front line ending, text = front ++ (line ++ ending) ∧ IsWhole front ∧ IsLine line ending ∧
      front.length < text.length := by
  obtain ⟨letter, last⟩ := Option.isSome_iff_exists.1 (List.getLast?_isSome.2 filled)
  obtain ⟨body, rfl⟩ := List.getLast?_eq_some_iff.1 last
  have parts := wholeLines_append_openLine body
  have whole := isWhole_wholeLines body
  have solid := not_mem_openLine body
  generalize wholeLines body = front at parts whole
  generalize openLine body = line at parts solid
  subst parts
  have shorter : front.length < (front ++ line ++ [letter]).length := by simp
  by_cases ends : letter = '\n'
  · subst ends
    by_cases carriage : line.getLast? = some '\r'
    · obtain ⟨line, rfl⟩ := List.getLast?_eq_some_iff.1 carriage
      exact ⟨front, line, ['\r', '\n'], by simp, whole,
        .carriage fun member => solid (by simp [member]), shorter⟩
    · exact ⟨front, line, ['\n'], by simp, whole, .feed solid carriage, shorter⟩
  · exact ⟨front, line ++ [letter], [], by simp, whole,
      .last (by simp [solid, Ne.symm ends]) (by simp), shorter⟩

/-- A text is built line by line, each behind lines that are whole. -/
theorem lastLine {motive : Text → Prop} (nil : motive [])
    (line : ∀ front line ending, IsWhole front → IsLine line ending → motive front →
      motive (front ++ (line ++ ending))) (text : Text) : motive text := by
  induction size : text.length using Nat.strong_induction_on generalizing text with
  | _ size shorter =>
      by_cases filled : text = []
      · rw [filled]
        exact nil
      · obtain ⟨front, last, ending, rfl, whole, isLine, less⟩ := exists_lastLine filled
        exact line front last ending whole isLine (shorter _ (size ▸ less) front rfl)

end DataSegment.Text
