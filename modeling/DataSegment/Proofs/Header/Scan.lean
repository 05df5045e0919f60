import DataSegment.Header.Scan
import DataSegment.Proofs.Text.Lines
import DataSegment.Proofs.Text.Parts

namespace DataSegment.Header

open Text

/-- Without comment marks there is nothing to remove. -/
theorem withoutComments_eq {text : Text} (line : ¬['/', '/'] <:+: text)
    (block : ¬['/', '*'] <:+: text) : withoutComments false text = (text, false) := by
  induction text with
  | nil => rfl
  | cons letter text inductionHypothesis =>
      have rest := inductionHypothesis
        (fun found => line (found.trans (List.suffix_cons letter text).isInfix))
        (fun found => block (found.trans (List.suffix_cons letter text).isInfix))
      cases text with
      | nil => rfl
      | cons next text =>
          have noLine : ¬(letter = '/' ∧ next = '/') := by
            rintro ⟨rfl, rfl⟩
            exact line ⟨[], text, rfl⟩
          have noBlock : ¬(letter = '/' ∧ next = '*') := by
            rintro ⟨rfl, rfl⟩
            exact block ⟨[], text, rfl⟩
          rw [withoutComments, if_neg (by simp), if_neg noLine, if_neg noBlock, rest]

/-- Nothing in a statement ends it or opens and closes braces or lines. -/
structure IsStatement (text : Text) : Prop where
  starts : ∃ first rest, text = first :: rest ∧ isWhite first = false ∧ first ≠ '#'
  plain : ∀ letter ∈ text, letter ≠ ';' ∧ letter ≠ '\x7b' ∧ letter ≠ '\x7d' ∧ letter ≠ '\n'
  line : ¬['/', '/'] <:+: text
  block : ¬['/', '*'] <:+: text

namespace Scan

/-- An open statement goes on up to the semicolon. -/
theorem readCode_append (line start opened : Nat) (inside : Bool) {pending text : Text}
    (started : pending ≠ [])
    (plain : ∀ letter ∈ text, letter ≠ ';' ∧ letter ≠ '\x7b' ∧ letter ≠ '\x7d') :
    readCode line ⟨pending, start, 0, inside, opened⟩ (text ++ [';']) =
      ([.statement start (pending.reverse ++ text)], ⟨[], start, 0, inside, opened⟩) := by
  induction text generalizing pending with
  | nil => simp [readCode]
  | cons letter text inductionHypothesis =>
      obtain ⟨ends, opens, closes⟩ := plain letter (List.mem_cons_self ..)
      have pushed : push line ⟨pending, start, 0, inside, opened⟩ letter =
          ⟨letter :: pending, start, 0, inside, opened⟩ := by
        simp [push, started, opens, closes]
      rw [List.cons_append, readCode, if_neg (by simp [ends]), pushed,
        inductionHypothesis (by simp) fun other member =>
          plain other (List.mem_cons_of_mem _ member)]
      simp

/-- A first line without comments that is no directive is read as code. -/
theorem readLine_initial {text : Text} (uncommented : withoutComments false text = (text, false))
    (code : initial.isDirective text = false) :
    initial.readLine 1 text =
      ((initial.readCode 1 text).1, push 1 (initial.readCode 1 text).2 ' ') := by
  have stripped : withoutComments initial.inside text = (text, false) := uncommented
  unfold readLine
  rw [stripped]
  change (if initial.isDirective text then _ else _) = _
  rw [code]
  rfl

end Scan

/-- The event of a header that holds one statement. -/
theorem events_statement {text : Text} (statement : IsStatement text) :
    events (text ++ [';']) = [.statement 1 text] := by
  have uncommented : withoutComments false (text ++ [';']) = (text ++ [';'], false) := by
    refine withoutComments_eq (fun found => ?_) fun found => ?_
    · rcases infix_pair_append_cons (by decide) (by decide) found with inside | inside
      · exact statement.line inside
      · simp at inside
    · rcases infix_pair_append_cons (by decide) (by decide) found with inside | inside
      · exact statement.block inside
      · simp at inside
  have whole : lines (text ++ [';']) = [text ++ [';']] := by
    refine lines_eq_singleton (fun member => ?_) (by simp)
    have inside : '\n' ∈ text := by simpa using member
    exact (statement.plain _ inside).2.2.2 rfl
  obtain ⟨first, rest, rfl, solid, hash⟩ := statement.starts
  obtain ⟨⟨ends, opens, closes, _⟩, others⟩ := List.forall_mem_cons.1 statement.plain
  have code : Scan.initial.isDirective ((first :: rest) ++ [';']) = false := by
    simp [Scan.isDirective, trimStart, solid, hash]
  have pushed : Scan.push 1 Scan.initial first = ⟨[first], 1, 0, false, 0⟩ := by
    simp [Scan.push, Scan.initial, solid, opens, closes]
  have read : Scan.initial.readCode 1 ((first :: rest) ++ [';']) =
      ([.statement 1 (first :: rest)], ⟨[], 1, 0, false, 0⟩) := by
    rw [List.cons_append, Scan.readCode, if_neg (by simp [ends]), pushed,
      Scan.readCode_append 1 1 0 false (by simp) fun letter member =>
        ⟨(others letter member).1, (others letter member).2.1, (others letter member).2.2.1⟩]
    rfl
  have line : Scan.initial.readLine 1 ((first :: rest) ++ [';']) =
      ([.statement 1 (first :: rest)], ⟨[], 1, 0, false, 0⟩) := by
    rw [Scan.readLine_initial uncommented code, read]
    rfl
  rw [events, whole, Scan.readLines, Scan.readLines, line]
  rfl

end DataSegment.Header
