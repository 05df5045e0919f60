import DataSegment.Header.Nesting
import DataSegment.Proofs.Text.Parts

namespace DataSegment.Header

open Text

/-- Parentheses match and no comma stands outside of them. Here `depth` counts the parentheses
that were opened before. -/
def isNested (depth : Nat) : Text → Bool
  | [] => depth == 0
  | letter :: rest =>
      if letter = '(' then isNested (depth + 1) rest
      else if letter = ')' then
        match depth with
        | 0 => false
        | outer + 1 => isNested outer rest
      else if letter = ',' ∧ depth = 0 then false
      else isNested depth rest

theorem isNested_of_plain {text : Text}
    (plain : ∀ letter ∈ text, letter ≠ '(' ∧ letter ≠ ')' ∧ letter ≠ ',') :
    isNested 0 text = true := by
  induction text with
  | nil => rfl
  | cons letter text inductionHypothesis =>
      obtain ⟨⟨opening, closing, comma⟩, rest⟩ := List.forall_mem_cons.1 plain
      simp [isNested, opening, closing, comma, inductionHypothesis rest]

theorem isNested_append {depth : Nat} {text : Text} (nested : isNested depth text = true)
    (rest : Text) : isNested depth (text ++ rest) = isNested 0 rest := by
  induction text generalizing depth with
  | nil =>
      have closed : depth = 0 := by simpa [isNested] using nested
      rw [closed, List.nil_append]
  | cons letter text inductionHypothesis =>
      rw [List.cons_append, isNested.eq_def depth (letter :: (text ++ rest))]
      unfold isNested at nested
      dsimp only
      split at nested
      · rename_i opening
        rw [if_pos opening, inductionHypothesis nested]
      · rename_i other
        rw [if_neg other]
        split at nested
        · rename_i closing
          rw [if_pos closing]
          cases depth with
          | zero => simp at nested
          | succ depth => exact inductionHypothesis nested
        · rename_i plain
          rw [if_neg plain]
          split at nested
          · simp at nested
          · rename_i inner
            rw [if_neg inner, inductionHypothesis nested]

/-- A nested text is passed over on the way to the closing parenthesis. -/
theorem closing?_append {depth : Nat} {text : Text} (nested : isNested depth text = true)
    (outer : Nat) (rest : Text) :
    closing? (outer + depth) (text ++ rest) =
      (closing? outer rest).map fun halves => (text ++ halves.1, halves.2) := by
  induction text generalizing depth with
  | nil =>
      have closed : depth = 0 := by simpa [isNested] using nested
      rw [closed, Nat.add_zero, List.nil_append]
      cases closing? outer rest <;> rfl
  | cons letter text inductionHypothesis =>
      have step {depth : Nat} (nested : isNested depth text = true) :
          (closing? (outer + depth) (text ++ rest)).map (extendHalf letter) =
            (closing? outer rest).map fun halves => (letter :: text ++ halves.1, halves.2) := by
        rw [inductionHypothesis nested, Option.map_map]
        rfl
      rw [List.cons_append, closing?.eq_def (outer + depth)]
      dsimp only
      unfold isNested at nested
      split at nested
      · rename_i opening
        rw [if_pos opening]
        exact step nested
      · rename_i other
        rw [if_neg other]
        split at nested
        · rename_i closing
          rw [if_pos closing]
          cases depth with
          | zero => simp at nested
          | succ depth => exact step nested
        · rename_i plain
          rw [if_neg plain]
          split at nested
          · simp at nested
          · exact step nested

/-- A nested text belongs to the part that it starts. -/
theorem splitCommas_append {depth : Nat} {text : Text} (nested : isNested depth text = true)
    {rest part : Text} {parts : List Text} (split : splitCommas 0 rest = part :: parts) :
    splitCommas depth (text ++ rest) = (text ++ part) :: parts := by
  induction text generalizing depth with
  | nil =>
      have closed : depth = 0 := by simpa [isNested] using nested
      rw [closed]
      exact split
  | cons letter text inductionHypothesis =>
      have step {depth : Nat} (nested : isNested depth text = true) :
          extendPart letter (splitCommas depth (text ++ rest)) =
            (letter :: text ++ part) :: parts := by
        rw [inductionHypothesis nested]
        rfl
      rw [List.cons_append, splitCommas]
      unfold isNested at nested
      split at nested
      · rename_i opening
        rw [if_pos opening]
        exact step nested
      · rename_i other
        rw [if_neg other]
        split at nested
        · rename_i closing
          rw [if_pos closing]
          cases depth with
          | zero => simp at nested
          | succ depth => exact step nested
        · rename_i plain
          rw [if_neg plain]
          split at nested
          · simp at nested
          · rename_i inner
            rw [if_neg inner]
            exact step nested

theorem splitCommas_ne_nil (depth : Nat) (text : Text) : splitCommas depth text ≠ [] := by
  have extended (letter : Char) (parts : List Text) : extendPart letter parts ≠ [] := by
    cases parts <;> simp [extendPart]
  cases text with
  | nil => simp [splitCommas]
  | cons letter rest =>
      rw [splitCommas]
      split
      · exact extended letter _
      · split
        · exact extended letter _
        · split
          · simp
          · exact extended letter _

theorem join_cons_cons (part next : Text) (parts : List Text) :
    join [',', ' '] (part :: next :: parts) =
      part ++ ',' :: ' ' :: join [',', ' '] (next :: parts) := by
  simp [join, List.intercalate_cons_cons]

/-- The parts of a list are found again. -/
theorem splitCommas_join {parts : List Text} (filled : parts ≠ [])
    (nested : ∀ part ∈ parts, isNested 0 part = true) :
    (splitCommas 0 (join [',', ' '] parts)).map trim = parts.map trim := by
  induction parts with
  | nil => exact absurd rfl filled
  | cons part parts inductionHypothesis =>
      have first := nested part (List.mem_cons_self ..)
      cases parts with
      | nil =>
          have alone : join [',', ' '] [part] = part ++ [] := by simp [join]
          rw [alone, splitCommas_append first (show splitCommas 0 [] = [[]] from rfl)]
          simp
      | cons next parts =>
          have rest := inductionHypothesis (by simp) fun other member =>
            nested other (List.mem_cons_of_mem _ member)
          obtain ⟨piece, pieces, same⟩ := List.exists_cons_of_ne_nil
            (splitCommas_ne_nil 0 (join [',', ' '] (next :: parts)))
          have later : splitCommas 0 (',' :: ' ' :: join [',', ' '] (next :: parts)) =
              [] :: (' ' :: piece) :: pieces := by
            simp [splitCommas, same, extendPart]
          rw [join_cons_cons, splitCommas_append first later]
          rw [same] at rest
          simpa [trim_cons_space] using rest

/-- The parenthesis that closes a list is found behind its parts. -/
theorem closing?_join {parts : List Text} (nested : ∀ part ∈ parts, isNested 0 part = true)
    (after : Text) :
    closing? 0 (join [',', ' '] parts ++ ')' :: after) = some (join [',', ' '] parts, after) := by
  induction parts with
  | nil => rfl
  | cons part parts inductionHypothesis =>
      have first := nested part (List.mem_cons_self ..)
      cases parts with
      | nil =>
          have alone : join [',', ' '] [part] = part := by simp [join]
          rw [alone, closing?_append first 0]
          simp [closing?]
      | cons next parts =>
          have rest := inductionHypothesis fun other member =>
            nested other (List.mem_cons_of_mem _ member)
          rw [join_cons_cons, List.append_assoc, closing?_append first 0]
          simp [closing?, rest, extendHalf]

end DataSegment.Header
