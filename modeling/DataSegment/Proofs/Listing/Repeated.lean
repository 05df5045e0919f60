import DataSegment.Listing.Operand

namespace DataSegment

theorem Text.length_of_sameLetters {first second : Text}
    (same : Text.sameLetters first second = true) : first.length = second.length := by
  have letters : first.map Char.toLower = second.map Char.toLower := by
    simpa [Text.sameLetters] using same
  simpa using congrArg List.length letters

namespace Listing

theorem startsQuoted_eq_false {word : Text} (quote : '\'' ∉ word) : startsQuoted word = false := by
  rw [startsQuoted, beq_eq_false_iff_ne]
  intro first
  exact quote (List.mem_of_head? first)

theorem mem_of_startsQuoted {word : Text} (quoted : startsQuoted word = true) : '\'' ∈ word :=
  List.mem_of_head? (beq_iff_eq.1 quoted)

theorem eq_paren_of_toLower {letter : Char} (lower : letter.toLower = '(') : letter = '(' := by
  unfold Char.toLower at lower
  split at lower
  · rename_i upper
    have number := congrArg Char.toNat lower
    simp [UInt32.le_iff_toNat_le] at upper number
    omega
  · exact lower

theorem map_toLower_of_isRepeat {word : Text} (repeats : isRepeat word = true) :
    (word.take 4).map Char.toLower = ['d', 'u', 'p', '('] := by
  simpa [isRepeat, Text.sameLetters] using repeats

/-- A repeated value has a parenthesis. -/
theorem mem_of_isRepeat {word : Text} (repeats : isRepeat word = true) : '(' ∈ word := by
  have member : '(' ∈ (word.take 4).map Char.toLower := by
    rw [map_toLower_of_isRepeat repeats]
    decide
  obtain ⟨letter, member, lower⟩ := List.mem_map.1 member
  exact eq_paren_of_toLower lower ▸ List.mem_of_mem_take member

/-- The mark of a repeat holds no closing parenthesis. -/
theorem not_mem_take_of_isRepeat {word : Text} (repeats : isRepeat word = true) :
    ')' ∉ word.take 4 := by
  intro member
  have lower : ')' ∈ (word.take 4).map Char.toLower := List.mem_map.2 ⟨')', member, by decide⟩
  rw [map_toLower_of_isRepeat repeats] at lower
  simp at lower

/-- The value of a repeat stands between its mark and the first closing parenthesis. -/
theorem exists_parts_of_isRepeat {word : Text} (repeats : isRepeat word = true)
    (closed : ')' ∈ word) :
    ∃ mark inner rest, word = mark ++ inner ++ ')' :: rest ∧
      Text.sameLetters mark ['d', 'u', 'p', '('] = true ∧ ')' ∉ inner := by
  have behind : ')' ∈ word.drop 4 := by
    rw [← List.take_append_drop 4 word] at closed
    exact (List.mem_append.1 closed).resolve_left (not_mem_take_of_isRepeat repeats)
  obtain ⟨inner, rest, split, inside⟩ := List.eq_append_cons_of_mem behind
  refine ⟨word.take 4, inner, rest, ?_, repeats, inside⟩
  rw [List.append_assoc, ← split, List.take_append_drop]

theorem isRepeat_append {mark : Text}
    (marked : Text.sameLetters mark ['d', 'u', 'p', '('] = true) (rest : Text) :
    isRepeat (mark ++ rest) = true := by
  have length : mark.length = 4 := Text.length_of_sameLetters marked
  rw [isRepeat, List.take_left' length, marked]

/-- A repeated value starts with a letter. -/
theorem exists_head_of_isRepeat {word : Text} (repeats : isRepeat word = true) :
    ∃ first rest, word = first :: rest ∧ first.isDigit = false ∧ first ≠ '-' ∧ first ≠ '\'' := by
  cases word with
  | nil => contradiction
  | cons first rest =>
      have lower : first.toLower = 'd' := by
        have same := map_toLower_of_isRepeat repeats
        exact (List.cons.inj same).1
      refine ⟨first, rest, rfl, ?_, ?_, ?_⟩
      · cases digit : first.isDigit with
        | false => rfl
        | true =>
            unfold Char.toLower at lower
            split at lower
            · rename_i upper
              simp [Char.isDigit, UInt32.le_iff_toNat_le] at upper digit
              omega
            · rw [lower] at digit
              contradiction
      · rintro rfl
        contradiction
      · rintro rfl
        contradiction

theorem startsQuoted_of_isRepeat {word : Text} (repeats : isRepeat word = true) :
    startsQuoted word = false := by
  obtain ⟨first, rest, rfl, _, _, unquoted⟩ := exists_head_of_isRepeat repeats
  simpa [startsQuoted] using unquoted

theorem startsNumeric_of_isRepeat {word : Text} (repeats : isRepeat word = true) :
    startsNumeric word = false := by
  obtain ⟨first, rest, rfl, letter, positive, _⟩ := exists_head_of_isRepeat repeats
  unfold startsNumeric
  split
  · rename_i same
    exact absurd (List.cons.inj same).1 positive
  · simpa using letter

end Listing

end DataSegment
