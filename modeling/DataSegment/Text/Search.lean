/-
This file splits texts at the first occurrence of a pattern.
-/

import DataSegment.Text

namespace DataSegment.Text

/-- What follows a text in another that starts with it. -/
def after? : Text → Text → Option Text
  | [], text => some text
  | _ :: _, [] => none
  | letter :: start, head :: text => if letter = head then after? start text else none

theorem eq_append_of_after? {start text rest : Text} (found : after? start text = some rest) :
    text = start ++ rest := by
  induction start generalizing text with
  | nil => simpa [after?] using found
  | cons letter start inductionHypothesis =>
      cases text with
      | nil => simp [after?] at found
      | cons head text =>
          simp only [after?] at found
          split at found
          · rename_i same
            rw [inductionHypothesis found, same, List.cons_append]
          · simp at found

theorem after?_append (start rest : Text) : after? start (start ++ rest) = some rest := by
  induction start with
  | nil => rfl
  | cons letter start inductionHypothesis => simpa [after?] using inductionHypothesis

/-- Splits at the first occurrence of a pattern, which belongs to neither half. -/
def breakOn? (pattern : Text) : Text → Option (Text × Text)
  | [] => if pattern.isEmpty then some ([], []) else none
  | letter :: rest =>
      match after? pattern (letter :: rest) with
      | some after => some ([], after)
      | none => (breakOn? pattern rest).map fun halves => (letter :: halves.1, halves.2)

/-- The two halves and the pattern make up the text. -/
theorem eq_append_of_breakOn? {pattern text before after : Text}
    (broken : breakOn? pattern text = some (before, after)) :
    text = before ++ pattern ++ after := by
  induction text generalizing before with
  | nil =>
      simp only [breakOn?] at broken
      split at broken
      · rename_i empty
        simp_all
      · simp at broken
  | cons letter text inductionHypothesis =>
      simp only [breakOn?] at broken
      split at broken
      · rename_i found
        simp only [Option.some.injEq, Prod.mk.injEq] at broken
        simpa [← broken.1, ← broken.2] using eq_append_of_after? found
      · simp only [Option.map_eq_some_iff, Prod.mk.injEq, Prod.exists] at broken
        obtain ⟨left, right, found, rfl, rfl⟩ := broken
        simp [inductionHypothesis found]

end DataSegment.Text
