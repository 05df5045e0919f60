import DataSegment.Listing.Entry
import DataSegment.Proofs.Conversion.Segments
import DataSegment.Proofs.Listing.Written

namespace DataSegment.Listing

theorem dropBlanks_sublist (line : Text) : (dropBlanks line).Sublist line :=
  List.dropWhile_sublist isBlank

theorem dropSeparator_sublist (line : Text) : (dropSeparator line).Sublist line := by
  unfold dropSeparator
  split
  · exact List.nil_sublist _
  · rename_i letter rest found
    have whole : (letter :: rest).Sublist line := found ▸ dropBlanks_sublist line
    split
    · exact (List.sublist_cons_self ..).trans whole
    · exact whole

/-- A word is taken out of the line, and so is what follows it. -/
theorem firstWord_sublist (quoted : Bool) (line : Text) :
    (firstWord quoted line).1.source.Sublist line ∧ (firstWord quoted line).2.Sublist line := by
  have parts := spanWord_append quoted false (dropBlanks line)
  have whole := dropBlanks_sublist line
  rw [← parts] at whole
  exact ⟨(List.sublist_append_left ..).trans whole, (List.sublist_append_right ..).trans whole⟩

theorem sublist_of_mem_words {line : Text} {word : Word} (member : word ∈ words line) :
    word.source.Sublist line := by
  induction line using words.induct with
  | case1 line none =>
      rw [words, if_pos none] at member
      contradiction
  | case2 line more inductionHypothesis =>
      rw [words, if_neg more] at member
      obtain ⟨first, rest⟩ := firstWord_sublist true line
      rcases List.mem_cons.1 member with rfl | member
      · exact first
      · exact (inductionHypothesis member).trans ((dropSeparator_sublist _).trans rest)

/-- What is kept of a word is taken out of the line, too. -/
theorem sublist_of_mem_keptWords {line word : Text} (member : word ∈ keptWords line) :
    word.Sublist line := by
  obtain ⟨source, listed, rfl⟩ := List.mem_map.1 member
  exact (List.take_sublist ..).trans (sublist_of_mem_words listed)

/-- A text behind a line that is no part of it: blanks, then a comment. -/
inductive IsComment : Text → Prop where
  | intro {blanks : Text} (filled : blanks ≠ []) (blank : ∀ letter ∈ blanks, isBlank letter = true)
      (remark : Text) : IsComment (blanks ++ ';' :: remark)

/-- The quotes of the last word of a line are paired. -/
def LastWordClosed (line : Text) : Prop :=
  ∀ word, (words line).getLast? = some word → word.source.count '\'' % 2 = 0

/-- A word that ends before the end of a line ends there whatever follows the line. -/
theorem spanWord_append_of_rest {quoted inside : Bool} {line : Text}
    (more : (spanWord quoted inside line).2 ≠ []) (tail : Text) :
    spanWord quoted inside (line ++ tail) =
      ((spanWord quoted inside line).1, (spanWord quoted inside line).2 ++ tail) := by
  induction line generalizing inside with
  | nil => exact absurd rfl more
  | cons letter rest inductionHypothesis =>
      rw [List.cons_append]
      unfold spanWord at more ⊢
      dsimp only at more ⊢
      generalize (if quoted && letter == '\'' then !inside else inside) = next at more ⊢
      split
      · rfl
      · rename_i goes
        rw [if_neg goes] at more
        rw [inductionHypothesis more]

theorem spanWord_plain_cons (letter : Char) (rest : Text) :
    spanWord false false (letter :: rest) =
      if endsWord letter then ([], letter :: rest)
      else (letter :: (spanWord false false rest).1, (spanWord false false rest).2) := by
  simp [spanWord, endsWord]

/-- Without literals a word ends where the line does, too. -/
theorem spanWord_plain_append (line : Text) {tail : Text}
    (ends : ∀ letter, tail.head? = some letter → endsWord letter = true) :
    spanWord false false (line ++ tail) =
      ((spanWord false false line).1, (spanWord false false line).2 ++ tail) := by
  induction line with
  | nil =>
      cases tail with
      | nil => rfl
      | cons letter tail =>
          rw [List.nil_append, spanWord_plain_cons, if_pos (ends letter rfl)]
          rfl
  | cons letter rest inductionHypothesis =>
      rw [List.cons_append, spanWord_plain_cons, spanWord_plain_cons]
      split
      · rfl
      · rw [inductionHypothesis]

theorem dropBlanks_append_of_nil {line : Text} (empty : dropBlanks line = []) (tail : Text) :
    dropBlanks (line ++ tail) = dropBlanks tail := by
  unfold dropBlanks at empty ⊢
  rw [List.dropWhile_append, empty]
  rfl

theorem dropBlanks_append_of_ne_nil {line : Text} (filled : dropBlanks line ≠ []) (tail : Text) :
    dropBlanks (line ++ tail) = dropBlanks line ++ tail := by
  unfold dropBlanks at filled ⊢
  rw [List.dropWhile_append, if_neg (by simpa using filled)]

theorem dropBlanks_ne_nil {line : Text} (more : hasNoWord line = false) : dropBlanks line ≠ [] := by
  intro empty
  rw [hasNoWord, empty] at more
  contradiction

theorem dropSeparator_append_of_ne_nil {line : Text} (filled : dropBlanks line ≠ []) (tail : Text) :
    dropSeparator (line ++ tail) = dropSeparator line ++ tail := by
  obtain ⟨letter, rest, found⟩ := List.exists_cons_of_ne_nil filled
  rw [dropSeparator, dropBlanks_append_of_ne_nil filled, dropSeparator, found]
  dsimp only [List.cons_append]
  split <;> rfl

namespace IsComment

variable {tail : Text} (comment : IsComment tail)
include comment

theorem dropBlanks_eq : ∃ remark, dropBlanks tail = ';' :: remark := by
  obtain ⟨_, blank, remark⟩ := comment
  exact ⟨remark, dropBlanks_append blank (';' :: remark) (by simp [isBlank])⟩

theorem endsWord_head (letter : Char) (first : tail.head? = some letter) :
    endsWord letter = true := by
  obtain ⟨filled, blank, remark⟩ := comment
  obtain ⟨head, blanks, rfl⟩ := List.exists_cons_of_ne_nil filled
  obtain rfl : head = letter := by simpa using first
  rw [endsWord, blank head (List.mem_cons_self ..), Bool.true_or]

theorem hasNoWord_append (line : Text) : hasNoWord (line ++ tail) = hasNoWord line := by
  cases start : dropBlanks line with
  | nil =>
      obtain ⟨remark, found⟩ := comment.dropBlanks_eq
      rw [hasNoWord, dropBlanks_append_of_nil start, found, hasNoWord, start]
      rfl
  | cons letter rest =>
      rw [hasNoWord, dropBlanks_append_of_ne_nil (by simp [start]), hasNoWord, start]
      rfl

theorem firstWord_plain_append {line : Text} (more : hasNoWord line = false) :
    firstWord false (line ++ tail) =
      ((firstWord false line).1, (firstWord false line).2 ++ tail) := by
  rw [firstWord, dropBlanks_append_of_ne_nil (dropBlanks_ne_nil more),
    spanWord_plain_append _ comment.endsWord_head]
  rfl

/-- The name of a segment is read without literals, so that no quote can be open. -/
theorem segmentName?_append (line : Text) : segmentName? (line ++ tail) = segmentName? line := by
  unfold segmentName?
  rw [comment.hasNoWord_append]
  cases more : hasNoWord line with
  | true => rfl
  | false =>
      rw [comment.firstWord_plain_append more]
      dsimp only
      rw [comment.hasNoWord_append]
      cases others : hasNoWord (firstWord false line).2 with
      | true => rfl
      | false => rw [comment.firstWord_plain_append others]

/-- Behind a word that is closed a comment starts no other word. -/
theorem words_dropSeparator_append {rest : Text}
    (later : words (dropSeparator rest ++ tail) = words (dropSeparator rest)) :
    words (dropSeparator (rest ++ tail)) = words (dropSeparator rest) := by
  cases start : dropBlanks rest with
  | nil =>
      obtain ⟨remark, found⟩ := comment.dropBlanks_eq
      have none : hasNoWord (';' :: remark) = true := rfl
      have behind : dropSeparator (rest ++ tail) = ';' :: remark := by
        rw [dropSeparator, dropBlanks_append_of_nil start, found]
        rfl
      have empty : dropSeparator rest = [] := by rw [dropSeparator, start]
      rw [behind, empty, words_nil, words, if_pos none]
  | cons letter others =>
      rw [dropSeparator_append_of_ne_nil (by simp [start]), later]

theorem firstWord_append {line : Text} (more : hasNoWord line = false)
    (closed : LastWordClosed line) :
    firstWord true (line ++ tail) = ((firstWord true line).1, (firstWord true line).2 ++ tail) := by
  have start := dropBlanks_append_of_ne_nil (dropBlanks_ne_nil more) tail
  have found : words line =
      (firstWord true line).1 :: words (dropSeparator (firstWord true line).2) := by
    rw [words, if_neg (by simp [more])]
  rw [firstWord, start, firstWord]
  by_cases whole : (spanWord true false (dropBlanks line)).2 = []
  · -- The word takes the whole line, so that it is the last one.
    have parts := spanWord_append true false (dropBlanks line)
    rw [whole, List.append_nil] at parts
    have solid : spanWord true false (dropBlanks line) = (dropBlanks line, []) :=
      Prod.ext parts whole
    have last : (words line).getLast? = some ⟨dropBlanks line⟩ := by
      rw [found, firstWord, solid]
      simp [dropSeparator, dropBlanks]
    have paired := closed _ last
    rw [spanWord_append_of_solid solid (by simpa using paired) comment.endsWord_head, solid]
    rfl
  · rw [spanWord_append_of_rest whole]

/-- A comment behind a line leaves its words as they are, unless a quote is open. -/
theorem words_append {line : Text} (closed : LastWordClosed line) :
    words (line ++ tail) = words line := by
  induction line using words.induct with
  | case1 line none => rw [words, comment.hasNoWord_append, if_pos none, words, if_pos none]
  | case2 line more inductionHypothesis =>
      have filled : hasNoWord line = false := by simpa using more
      have found : words line =
          (firstWord true line).1 :: words (dropSeparator (firstWord true line).2) := by
        rw [words, if_neg more]
      have later : LastWordClosed (dropSeparator (firstWord true line).2) := by
        intro word last
        apply closed
        rw [found, List.getLast?_cons, last]
        rfl
      rw [words, comment.hasNoWord_append, if_neg more, comment.firstWord_append filled closed,
        found, comment.words_dropSeparator_append (inductionHypothesis later)]

end IsComment

end DataSegment.Listing
