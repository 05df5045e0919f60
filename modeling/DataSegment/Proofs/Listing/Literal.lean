import DataSegment.Listing.Literal
import DataSegment.Listing.Quoted
import DataSegment.Proofs.Listing.Written
import DataSegment.Proofs.Text.Numeral

namespace DataSegment.Listing

open Text

/-- The characters of which numbers are made. -/
def isNumberLetter (letter : Char) : Bool :=
  ['-', '+', 'h', 'H'].contains letter || (hexValue? letter).isSome

theorem isNumberLetter_of_digitValue? {base : Nat} {letter : Char}
    (digit : (digitValue? base letter).isSome) : isNumberLetter letter := by
  obtain ⟨value, found⟩ := Option.isSome_iff_exists.1 digit
  rw [digitValue?, Option.filter_eq_some_iff] at found
  simp [isNumberLetter, found.1]

theorem isNumberLetter_of_natural? {base value : Nat} {digits : Text}
    (found : natural? base digits = some value) : ∀ letter ∈ digits, isNumberLetter letter :=
  fun letter member => isNumberLetter_of_digitValue? (isSome_digitValue?_of_natural? found letter member)

theorem isNumberLetter_of_unsigned? {base : Nat} {text : Text} {value : UInt64}
    (found : unsigned? base text = some value) : ∀ letter ∈ text, isNumberLetter letter := by
  unfold unsigned? at found
  simp only [Option.map_eq_some_iff, Option.filter_eq_some_iff] at found
  obtain ⟨_, ⟨read, _⟩, _⟩ := found
  split at read
  · intro letter member
    rcases List.mem_cons.1 member with rfl | member
    · decide
    · exact isNumberLetter_of_natural? read letter member
  · exact isNumberLetter_of_natural? read

theorem isNumberLetter_of_magnitude? {text : Text} {value : UInt64}
    (found : magnitude? text = some value) : ∀ letter ∈ text, isNumberLetter letter := by
  unfold magnitude? at found
  split at found
  · rename_i last isLast
    split at found
    · rename_i marked
      intro letter member
      obtain ⟨digits, rfl⟩ := List.getLast?_eq_some_iff.1 isLast
      rw [List.dropLast_concat] at found
      rcases List.mem_append.1 member with member | member
      · exact isNumberLetter_of_unsigned? found letter member
      · simp only [Bool.or_eq_true, beq_iff_eq] at marked
        rw [List.mem_singleton.1 member]
        rcases marked with rfl | rfl <;> decide
    · exact isNumberLetter_of_unsigned? found
  · simp at found

/-- A number holds nothing but digits, signs and its mark. -/
theorem isNumberLetter_of_number? {word : Text} {value : UInt64}
    (found : number? word = some value) : ∀ letter ∈ word, isNumberLetter letter := by
  unfold number? at found
  split at found
  · obtain ⟨_, read, _⟩ := Option.map_eq_some_iff.1 found
    intro letter member
    rcases List.mem_cons.1 member with rfl | member
    · decide
    · exact isNumberLetter_of_magnitude? read letter member
  · exact isNumberLetter_of_magnitude? found

theorem ne_nil_of_number? {word : Text} {value : UInt64} (found : number? word = some value) :
    word ≠ [] := by
  intro equal
  subst equal
  simp [number?, magnitude?] at found

theorem not_mem_of_number? {word : Text} {value : UInt64} (found : number? word = some value)
    {letter : Char} (other : isNumberLetter letter = false) : letter ∉ word := by
  intro member
  rw [isNumberLetter_of_number? found letter member] at other
  contradiction

theorem Written.of_number? {word : Text} {value : UInt64} (found : number? word = some value) :
    Written word := by
  apply Written.of_plain (ne_nil_of_number? found)
  intro letter member
  have absent {other : Char} (foreign : isNumberLetter other = false) : letter ≠ other :=
    fun same => not_mem_of_number? found foreign (same ▸ member)
  refine ⟨?_, absent (by decide), absent (by decide)⟩
  simp [endsWord, isBlank, absent (show isNumberLetter ' ' = false by decide),
    absent (show isNumberLetter '\t' = false by decide),
    absent (show isNumberLetter '\r' = false by decide),
    absent (show isNumberLetter '\n' = false by decide),
    absent (show isNumberLetter ',' = false by decide)]

namespace Quoted

/-- Every quote of a text is written twice. -/
def double (content : Text) : Text :=
  content.flatMap fun letter => if letter = '\'' then ['\'', '\''] else [letter]

/-- A text between single quotes. -/
def literal (content : Text) : Text := '\'' :: (double content ++ ['\''])

theorem double_cons (letter : Char) (content : Text) :
    double (letter :: content) =
      (if letter = '\'' then ['\'', '\''] else [letter]) ++ double content := rfl

theorem ofBody_cons_of_ne {letter : Char} (other : letter ≠ '\'') (rest : Text) :
    ofBody (letter :: rest) = (ofBody rest).cons letter := by
  rw [ofBody]
  · exact fun _ same => absurd same other
  · exact fun same => absurd same other
  · exact fun _ _ same => absurd same other

/-- Quoted text is read back as it was. -/
theorem ofBody_double (content : Text) : ofBody (double content ++ ['\'']) = .closed content := by
  induction content with
  | nil => rfl
  | cons letter content inductionHypothesis =>
      rw [double_cons, List.append_assoc]
      by_cases quote : letter = '\''
      · subst quote
        rw [if_pos rfl, List.cons_append, List.singleton_append, ofBody, inductionHypothesis]
        rfl
      · rw [if_neg quote, List.singleton_append, ofBody_cons_of_ne quote, inductionHypothesis]
        rfl

theorem spanWord_double (content : Text) :
    spanWord true true (double content ++ ['\'']) = (double content ++ ['\''], []) := by
  induction content with
  | nil => decide
  | cons letter content inductionHypothesis =>
      rw [double_cons, List.append_assoc]
      by_cases quote : letter = '\''
      · subst quote
        simp [spanWord_cons, insideAfter, endsWord, isBlank, inductionHypothesis]
      · simp [spanWord_cons, insideAfter, quote, inductionHypothesis]

theorem count_double (content : Text) : (double content).count '\'' = 2 * content.count '\'' := by
  induction content with
  | nil => rfl
  | cons letter content inductionHypothesis =>
      rw [double_cons, List.count_append, inductionHypothesis]
      by_cases quote : letter = '\''
      · subst quote
        rw [if_pos rfl, List.count_cons_self]
        simp
        omega
      · rw [if_neg quote, List.count_cons_of_ne quote]
        simp [quote]

theorem written_literal (content : Text) : Written (literal content) where
  filled := by simp [literal]
  solid := by
    rw [literal, spanWord_cons]
    simp [insideAfter, spanWord_double]
  paired := by
    rw [literal, List.count_cons_self, List.count_append, count_double]
    simp
    omega
  code := by simp [literal]

end Quoted

end DataSegment.Listing
