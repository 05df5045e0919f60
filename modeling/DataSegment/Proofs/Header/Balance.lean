import DataSegment.Header.Nesting

namespace DataSegment.Header

/-- Every parenthesis has its partner. Here `depth` counts the parentheses that were opened
before. -/
def isBalanced (depth : Nat) : Text → Bool
  | [] => depth == 0
  | letter :: rest =>
      if letter = '(' then isBalanced (depth + 1) rest
      else if letter = ')' then
        match depth with
        | 0 => false
        | outer + 1 => isBalanced outer rest
      else isBalanced depth rest

theorem isBalanced_of_plain {text : Text} (opening : '(' ∉ text) (closing : ')' ∉ text) :
    isBalanced 0 text = true := by
  induction text with
  | nil => rfl
  | cons letter text inductionHypothesis =>
      rw [List.mem_cons, not_or] at opening closing
      rw [isBalanced.eq_def]
      simp only [Ne.symm opening.1, Ne.symm closing.1, if_false]
      exact inductionHypothesis opening.2 closing.2

theorem isBalanced_of_closing? {depth : Nat} {text inner after : Text}
    (found : closing? depth text = some (inner, after)) : isBalanced depth inner = true := by
  induction text generalizing depth inner with
  | nil => contradiction
  | cons letter text inductionHypothesis =>
      have step {depth : Nat} {inner : Text}
          (found : (closing? depth text).map (extendHalf letter) = some (inner, after)) :
          ∃ later, inner = letter :: later ∧ isBalanced depth later = true := by
        obtain ⟨⟨first, second⟩, later, same⟩ := Option.map_eq_some_iff.1 found
        obtain ⟨rfl, rfl⟩ := Prod.mk.inj same
        exact ⟨first, rfl, inductionHypothesis later⟩
      rw [closing?.eq_def] at found
      dsimp only at found
      split at found
      · rename_i opening
        obtain ⟨later, rfl, balanced⟩ := step found
        rw [isBalanced.eq_def]
        simp only [opening, if_true]
        exact balanced
      · rename_i other
        split at found
        · rename_i closing
          cases depth with
          | zero =>
              obtain ⟨rfl, rfl⟩ := Prod.mk.inj (Option.some.inj found)
              rfl
          | succ depth =>
              obtain ⟨later, rfl, balanced⟩ := step found
              rw [isBalanced.eq_def]
              simp only [closing, if_true]
              exact balanced
        · rename_i plain
          obtain ⟨later, rfl, balanced⟩ := step found
          rw [isBalanced.eq_def]
          simp only [other, plain, if_false]
          exact balanced

theorem closing?_of_isBalanced {depth : Nat} {inner : Text}
    (balanced : isBalanced depth inner = true) (after : Text) :
    closing? depth (inner ++ ')' :: after) = some (inner, after) := by
  induction inner generalizing depth with
  | nil =>
      obtain rfl : depth = 0 := by simpa [isBalanced] using balanced
      rfl
  | cons letter inner inductionHypothesis =>
      have step {depth : Nat} (balanced : isBalanced depth inner = true) :
          (closing? depth (inner ++ ')' :: after)).map (extendHalf letter) =
            some (letter :: inner, after) := by
        rw [inductionHypothesis balanced]
        rfl
      rw [List.cons_append, closing?.eq_def]
      rw [isBalanced.eq_def] at balanced
      dsimp only at balanced ⊢
      split at balanced
      · rename_i opening
        rw [if_pos opening, step balanced]
      · rename_i other
        rw [if_neg other]
        split at balanced
        · rename_i closing
          rw [if_pos closing]
          cases depth with
          | zero => contradiction
          | succ depth => exact step balanced
        · rename_i plain
          rw [if_neg plain, step balanced]

/-- What stands in front of the partner of a parenthesis is balanced, and what is balanced stands
in front of it. -/
theorem closing?_eq_some_iff {depth : Nat} {text inner after : Text} :
    closing? depth text = some (inner, after) ↔
      text = inner ++ ')' :: after ∧ isBalanced depth inner = true := by
  constructor
  · exact fun found => ⟨eq_append_of_closing? found, isBalanced_of_closing? found⟩
  · rintro ⟨rfl, balanced⟩
    exact closing?_of_isBalanced balanced after

end DataSegment.Header
