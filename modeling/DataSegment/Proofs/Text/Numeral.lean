import DataSegment.Text.Numeral
import Mathlib.Algebra.Group.Nat.Defs

namespace DataSegment.Text

/-- The letters behind the decimal digits stand for the values up to fifteen. -/
theorem hexValue?_lt {letter : Char} {digit : Nat} (found : hexValue? letter = some digit) :
    digit < 16 := by
  have zero : ('0' : Char).toNat = 48 := rfl
  have nine : ('9' : Char).toNat = 57 := rfl
  have small : ('a' : Char).toNat = 97 ∧ ('f' : Char).toNat = 102 := ⟨rfl, rfl⟩
  have capital : ('A' : Char).toNat = 65 ∧ ('F' : Char).toNat = 70 := ⟨rfl, rfl⟩
  simp only [hexValue?, Bool.and_eq_true, decide_eq_true_eq, Char.le_def,
    UInt32.le_iff_toNat_le, Char.toNat_val] at found
  split at found
  · simp only [Option.some.injEq] at found
    omega
  · split at found
    · simp only [Option.some.injEq] at found
      omega
    · split at found
      · simp only [Option.some.injEq] at found
        omega
      · simp at found

theorem digitValue?_sixteen (letter : Char) : digitValue? 16 letter = hexValue? letter := by
  rw [digitValue?]
  cases found : hexValue? letter with
  | none => rfl
  | some digit => simp [hexValue?_lt found]

theorem isSome_digitValue?_mono {small large : Nat} (within : small ≤ large) {letter : Char}
    (known : (digitValue? small letter).isSome) : (digitValue? large letter).isSome := by
  obtain ⟨digit, found⟩ := Option.isSome_iff_exists.1 known
  rw [digitValue?, Option.filter_eq_some_iff] at found
  have below : digit < small := by simpa using found.2
  rw [digitValue?, found.1, Option.filter_some, if_pos (by simp; omega), Option.isSome_some]

theorem digitValue?_digitChar {base digit : Nat} (small : base ≤ 16) (below : digit < base) :
    digitValue? base digit.digitChar = some digit := by
  have value : ∀ digit : Fin 16, hexValue? digit.val.digitChar = some digit.val := by decide
  have known := value ⟨digit, by omega⟩
  simp only at known
  simp [digitValue?, known, below]

/-- Digits extend what was read before them, place by place. -/
theorem foldlM_numeral {base : Nat} (large : 1 < base) (small : base ≤ 16) (value : Nat) :
    (numeral base value).foldlM (appendDigit base) 0 = some value := by
  induction value using Nat.base_induction base large with
  | single digit below =>
      rw [numeral, Nat.toDigits_of_lt_base below]
      simp [appendDigit, digitValue?_digitChar small below]
  | digit value digit below positive inductionHypothesis =>
      rw [numeral, ← Nat.toDigits_append_toDigits large positive below, List.foldlM_append,
        ← numeral, inductionHypothesis, Nat.toDigits_of_lt_base below]
      simp [appendDigit, digitValue?_digitChar small below, Nat.mul_comm]

theorem foldlM_zeros {base : Nat} (positive : 0 < base) (count : Nat) (rest : Text) :
    (List.replicate count '0' ++ rest).foldlM (appendDigit base) 0 =
      rest.foldlM (appendDigit base) 0 := by
  have zero : digitValue? base '0' = some 0 := by
    simp [digitValue?, show hexValue? '0' = some 0 by decide, positive]
  induction count with
  | zero => rfl
  | succ count inductionHypothesis =>
      rw [List.replicate_succ, List.cons_append, List.foldlM_cons]
      simp only [appendDigit, zero, Option.map_some, Nat.zero_mul, Nat.add_zero,
        Option.bind_eq_bind, Option.bind_some]
      exact inductionHypothesis

theorem numeral_ne_nil (base value : Nat) : numeral base value ≠ [] := Nat.toDigits_ne_nil

theorem foldlM_paddedNumeral {base : Nat} (large : 1 < base) (small : base ≤ 16)
    (width value : Nat) :
    (paddedNumeral width base value).foldlM (appendDigit base) 0 = some value := by
  rw [paddedNumeral, List.leftpad, foldlM_zeros (by omega), foldlM_numeral large small]

/-- Zeros in front leave a numeral as it is. -/
theorem natural?_paddedNumeral {base : Nat} (large : 1 < base) (small : base ≤ 16)
    (width value : Nat) : natural? base (paddedNumeral width base value) = some value := by
  have filled : paddedNumeral width base value ≠ [] := by
    simp [paddedNumeral, List.leftpad, numeral_ne_nil]
  rw [natural?, if_neg (by simpa using filled), foldlM_paddedNumeral large small]

/-- A text that is read as digits holds nothing else. -/
theorem isSome_digitValue?_of_foldlM {base start value : Nat} {digits : Text}
    (found : digits.foldlM (appendDigit base) start = some value) :
    ∀ digit ∈ digits, (digitValue? base digit).isSome := by
  induction digits generalizing start with
  | nil => simp
  | cons digit digits inductionHypothesis =>
      simp only [List.foldlM_cons, Option.bind_eq_bind, Option.bind_eq_some_iff, appendDigit,
        Option.map_eq_some_iff] at found
      obtain ⟨_, ⟨first, known, rfl⟩, later⟩ := found
      intro other member
      rcases List.mem_cons.1 member with rfl | member
      · rw [known, Option.isSome_some]
      · exact inductionHypothesis later other member

theorem isSome_digitValue?_of_natural? {base value : Nat} {digits : Text}
    (found : natural? base digits = some value) :
    ∀ digit ∈ digits, (digitValue? base digit).isSome := by
  rw [natural?] at found
  split at found
  · simp at found
  · exact isSome_digitValue?_of_foldlM found

theorem isSome_digitValue?_paddedNumeral {base : Nat} (large : 1 < base) (small : base ≤ 16)
    (width value : Nat) :
    ∀ digit ∈ paddedNumeral width base value, (digitValue? base digit).isSome :=
  isSome_digitValue?_of_natural? (natural?_paddedNumeral large small width value)

/-- A numeral fills its least width exactly when the number has no more digits. -/
theorem length_paddedNumeral {width base value : Nat} (large : 1 < base) (positive : 0 < width)
    (below : value < base ^ width) : (paddedNumeral width base value).length = width := by
  have short : (numeral base value).length ≤ width :=
    (Nat.length_toDigits_le_iff large positive).2 below
  rw [paddedNumeral, List.leftpad, List.length_append, List.length_replicate]
  omega

end DataSegment.Text
