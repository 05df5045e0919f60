import DataSegment.Text

namespace DataSegment.Text

/-- Every line is written with a carriage return and a line feed. -/
def unlines (lines : List Text) : Text := lines.flatMap (· ++ ['\r', '\n'])

/-- The carriage return protects one that belongs to the line. -/
theorem lines_unlines {entries : List Text} (solid : ∀ line ∈ entries, '\n' ∉ line) :
    lines (unlines entries) = entries := by
  induction entries with
  | nil => rfl
  | cons line entries inductionHypothesis =>
      have whole : '\n' ∉ line ++ ['\r'] := by
        simpa using solid line (List.mem_cons_self ..)
      have rest := inductionHypothesis fun other member =>
        solid other (List.mem_cons_of_mem _ member)
      have shape : unlines (line :: entries) = (line ++ ['\r']) ++ '\n' :: unlines entries := by
        simp [unlines]
      rw [shape, lines, linesFrom_of_solid whole, ← lines, rest]
      simp [closeLine]

theorem not_mem_closeLine {current : Text} (solid : '\n' ∉ current) : '\n' ∉ closeLine current := by
  unfold closeLine
  split
  · rename_i rest
    simpa using fun member => solid (List.mem_cons_of_mem _ member)
  · simpa using solid

theorem not_mem_of_mem_linesFrom {current text line : Text} (solid : '\n' ∉ current)
    (member : line ∈ linesFrom current text) : '\n' ∉ line := by
  induction text generalizing current with
  | nil =>
      unfold linesFrom at member
      split at member
      · simp at member
      · simpa [List.mem_singleton.1 member] using solid
  | cons letter text inductionHypothesis =>
      by_cases ends : letter = '\n'
      · subst ends
        rcases List.mem_cons.1 member with rfl | member
        · exact not_mem_closeLine solid
        · exact inductionHypothesis (by simp) member
      · rw [linesFrom] at member
        · refine inductionHypothesis ?_ member
          simpa using ⟨fun same => ends same.symm, solid⟩
        · exact ends

/-- No line holds a line feed. -/
theorem not_mem_of_mem_lines {text line : Text} (member : line ∈ lines text) : '\n' ∉ line :=
  not_mem_of_mem_linesFrom (by simp) member

theorem closeLine_sublist (current : Text) : (closeLine current).Sublist current.reverse := by
  unfold closeLine
  split
  · rw [List.reverse_cons]
    exact List.sublist_append_left ..
  · exact List.Sublist.refl _

theorem sublist_of_mem_linesFrom {current text line : Text}
    (member : line ∈ linesFrom current text) : line.Sublist (current.reverse ++ text) := by
  induction text generalizing current with
  | nil =>
      unfold linesFrom at member
      split at member
      · contradiction
      · rw [List.mem_singleton.1 member]
        exact List.sublist_append_left ..
  | cons letter text inductionHypothesis =>
      by_cases ends : letter = '\n'
      · subst ends
        rcases List.mem_cons.1 member with rfl | member
        · exact (closeLine_sublist current).trans (List.sublist_append_left ..)
        · have later := inductionHypothesis member
          exact (later.trans (List.sublist_cons_self ..)).trans (List.sublist_append_right ..)
      · rw [linesFrom] at member
        · simpa using inductionHypothesis member
        · exact ends

/-- A line is taken out of its text. -/
theorem sublist_of_mem_lines {text line : Text} (member : line ∈ lines text) : line.Sublist text :=
  sublist_of_mem_linesFrom member

theorem linesFrom_eq_singleton {line : Text} (solid : '\n' ∉ line) {current : Text}
    (filled : line ≠ [] ∨ current ≠ []) : linesFrom current line = [current.reverse ++ line] := by
  induction line generalizing current with
  | nil =>
      have open' : current ≠ [] := by simpa using filled
      simp [linesFrom, open']
  | cons letter line inductionHypothesis =>
      simp only [List.mem_cons, not_or] at solid
      rw [linesFrom, inductionHypothesis solid.2 (.inr (by simp))]
      · simp
      · exact fun same => solid.1 same.symm

/-- A last line needs no line feed. -/
theorem lines_eq_singleton {line : Text} (solid : '\n' ∉ line) (filled : line ≠ []) :
    lines line = [line] := linesFrom_eq_singleton solid (.inl filled)

/-- What the lines of a text become when a line feed ends it: there is an empty line more, or the
last line is closed. -/
inductive Ends : List Text → List Text → Prop where
  | blank (front : List Text) : Ends front (front ++ [[]])
  | same (lines : List Text) : Ends lines lines
  | carriage (front : List Text) (line : Text) : Ends (front ++ [line ++ ['\r']]) (front ++ [line])

theorem Ends.cons {open' closed : List Text} (ends : Ends open' closed) (line : Text) :
    Ends (line :: open') (line :: closed) := by
  cases ends with
  | blank => exact .blank (line :: open')
  | same => exact .same _
  | carriage front last => exact .carriage (line :: front) last

theorem ends_linesFrom (current text : Text) :
    Ends (linesFrom current text) (linesFrom current (text ++ ['\n'])) := by
  induction text generalizing current with
  | nil =>
      cases current with
      | nil => exact .blank []
      | cons letter rest =>
          have kept : linesFrom (letter :: rest) [] = [rest.reverse ++ [letter]] := by
            simp [linesFrom]
          have closed : linesFrom (letter :: rest) ([] ++ ['\n']) =
              [closeLine (letter :: rest)] := by simp [linesFrom]
          rw [kept, closed]
          by_cases carriage : letter = '\r'
          · subst carriage
            exact .carriage [] rest.reverse
          · rw [closeLine, List.reverse_cons]
            · exact .same _
            · exact fun _ equal => carriage (List.cons.inj equal).1
  | cons letter text inductionHypothesis =>
      by_cases ends : letter = '\n'
      · subst ends
        exact (inductionHypothesis []).cons _
      · rw [List.cons_append, linesFrom, linesFrom]
        · exact inductionHypothesis _
        · exact ends
        · exact ends

theorem ends_lines (text : Text) : Ends (lines text) (lines (text ++ ['\n'])) :=
  ends_linesFrom [] text

end DataSegment.Text
