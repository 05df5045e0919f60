import Mathlib.Data.List.Induction
import DataSegment.Proofs.Listing.Spelling

namespace DataSegment.Listing

/-- The text in front of a place of a line where no literal is open and no comment has started. A
comment starts at a semicolon that no word is in front of. -/
structure IsCode (before : Text) : Prop where
  paired : before.count '\'' % 2 = 0
  uncommented : ∀ front rest, before = front ++ ';' :: rest → front.count '\'' % 2 = 0 →
    ∃ letter, front.getLast? = some letter ∧ endsWord letter = false

/-- A comma that separates no two words: no word is in front of it, or none behind it, or it follows
another comma. -/
inductive Stray (before after : Text) : Prop where
  | leading (bare : ∀ letter ∈ before, endsWord letter = true)
  | trailing {gap rest : Text} (same : after = gap ++ rest)
      (bare : ∀ letter ∈ gap, endsWord letter = true) (ends : rest = [] ∨ rest.head? = some ';')
  | doubled {front blanks : Text} (same : before = front ++ ',' :: blanks)
      (blank : ∀ letter ∈ blanks, isBlank letter = true)

/-- Whether a word is awaited behind a letter outside of literals. -/
def awaitsAfter (awaits : Bool) (letter : Char) : Bool :=
  if isBlank letter then awaits else letter == ','

/-- A word is awaited at the start of a line and behind a comma. -/
def awaitsWord (before : Text) : Bool := before.foldl awaitsAfter true

theorem foldl_awaitsAfter_blank {blanks : Text} (blank : ∀ letter ∈ blanks, isBlank letter = true)
    (awaits : Bool) : blanks.foldl awaitsAfter awaits = awaits := by
  induction blanks with
  | nil => rfl
  | cons letter blanks inductionHypothesis =>
      rw [List.foldl_cons, awaitsAfter, if_pos (blank letter (List.mem_cons_self ..))]
      exact inductionHypothesis fun other listed => blank other (List.mem_cons_of_mem _ listed)

theorem awaitsWord_append_blank {blanks : Text} (front : Text)
    (blank : ∀ letter ∈ blanks, isBlank letter = true) :
    awaitsWord (front ++ blanks) = awaitsWord front := by
  rw [awaitsWord, List.foldl_append, foldl_awaitsAfter_blank blank, awaitsWord]

theorem awaitsWord_of_endsWord {gap : Text} (bare : ∀ letter ∈ gap, endsWord letter = true) :
    awaitsWord gap = true := by
  induction gap using List.reverseRecOn with
  | nil => rfl
  | append_singleton gap letter inductionHypothesis =>
      have awaits := inductionHypothesis fun other listed => bare other (by simp [listed])
      have ends := bare letter (by simp)
      rw [awaitsWord, List.foldl_concat, ← awaitsWord, awaits, awaitsAfter]
      split
      · rfl
      · rename_i solid
        rw [eq_comma_of_endsWord ends (by simpa using solid)]
        rfl

theorem awaitsWord_of_isBlank {blanks : Text} (blank : ∀ letter ∈ blanks, isBlank letter = true) :
    awaitsWord blanks = true :=
  awaitsWord_of_endsWord fun letter listed => endsWord_of_isBlank (blank letter listed)

theorem awaitsWord_concat (front : Text) {letter : Char} (solid : isBlank letter = false) :
    awaitsWord (front ++ [letter]) = (letter == ',') := by
  rw [awaitsWord, List.foldl_concat, awaitsAfter, solid]
  rfl

/-- Behind a comma a word is awaited as at the start of a line. -/
theorem awaitsWord_comma (front rest : Text) :
    awaitsWord (front ++ ',' :: rest) = awaitsWord rest := by
  rw [awaitsWord, List.foldl_append, List.foldl_cons]
  rfl

/-- Behind a letter that is no blank it does not matter what is in front of it. -/
theorem awaitsWord_append_cons (front : Text) {letter : Char} (solid : isBlank letter = false)
    (rest : Text) : awaitsWord (front ++ letter :: rest) = awaitsWord (letter :: rest) := by
  have same (awaits : Bool) : awaitsAfter awaits letter = (letter == ',') := by
    rw [awaitsAfter, solid]
    rfl
  rw [awaitsWord, List.foldl_append, List.foldl_cons, awaitsWord, List.foldl_cons, same, same]

theorem count_quote_eq_zero {gap : Text} (ends : ∀ letter ∈ gap, endsWord letter = true) :
    gap.count '\'' = 0 := by
  apply List.count_eq_zero_of_not_mem
  intro member
  have never := ends '\'' member
  contradiction

theorem count_quote_takeBlanks (line : Text) : (line.takeWhile isBlank).count '\'' = 0 :=
  count_quote_eq_zero fun _ member => endsWord_of_isBlank (isBlank_of_mem_takeBlanks member)

/-- A line is its first blanks, its first word and the rest. -/
theorem takeBlanks_spanWord (line : Text) :
    line.takeWhile isBlank ++ ((spanWord true false (dropBlanks line)).1 ++
      (spanWord true false (dropBlanks line)).2) = line := by
  rw [spanWord_append, takeBlanks_append]

/-- A word that ends before its line does has closed its literals. -/
theorem paired_of_spanWord {inside : Bool} {line : Text}
    (more : (spanWord true inside line).2 ≠ []) :
    ((spanWord true inside line).1.count '\'' + inside.toNat) % 2 = 0 := by
  induction line generalizing inside with
  | nil => exact absurd rfl more
  | cons letter line inductionHypothesis =>
      rw [spanWord_cons] at more ⊢
      split at more
      · rename_i stops
        rw [if_pos stops]
        rw [Bool.and_eq_true, Bool.not_eq_true'] at stops
        obtain ⟨closed, ends⟩ := stops
        have plain : letter ≠ '\'' := by
          rintro rfl
          contradiction
        rw [insideAfter, if_neg plain] at closed
        rw [closed]
        rfl
      · rename_i goes
        rw [if_neg goes, ← count_insideAfter]
        exact inductionHypothesis more

/-- The last letter of a word that has closed its literals is part of the word. -/
theorem Unbroken.endsWord_last {front : Text} {letter : Char}
    (unbroken : Unbroken (front ++ [letter]))
    (paired : (front ++ [letter]).count '\'' % 2 = 0) : endsWord letter = false := by
  by_cases quote : letter = '\''
  · rw [quote]
    decide
  · apply unbroken front letter [] rfl
    rw [List.count_append, List.count_singleton] at paired
    simpa [quote] using paired

theorem Unbroken.awaitsWord_append {word : Text} (unbroken : Unbroken word) (filled : word ≠ [])
    (paired : word.count '\'' % 2 = 0) (front : Text) : awaitsWord (front ++ word) = false := by
  obtain ⟨start, letter, rfl⟩ := (List.eq_nil_or_concat' word).resolve_left filled
  have last := unbroken.endsWord_last paired
  rw [endsWord, Bool.or_eq_false_iff] at last
  rw [← List.append_assoc, awaitsWord_concat _ last.1, last.2]

namespace IsCode

variable {before : Text}

/-- Behind a separator nothing in front of it matters. -/
theorem of_append {front rest : Text} (code : IsCode (front ++ rest))
    (paired : front.count '\'' % 2 = 0)
    (ends : ∀ letter, front.getLast? = some letter → endsWord letter = true) : IsCode rest where
  paired := by
    have whole := code.paired
    rw [List.count_append] at whole
    omega
  uncommented := by
    rintro start others rfl closed
    obtain ⟨letter, last, goes⟩ := code.uncommented (front ++ start) others (by simp) (by
      rw [List.count_append]
      omega)
    rw [List.getLast?_append] at last
    cases found : start.getLast? with
    | some other =>
        rw [found, Option.some_or] at last
        exact ⟨other, rfl, Option.some.inj last ▸ goes⟩
    | none =>
        rw [found, Option.none_or] at last
        rw [ends letter last] at goes
        contradiction

theorem of_plain (paired : before.count '\'' % 2 = 0) (plain : ';' ∉ before) : IsCode before where
  paired := paired
  uncommented := by
    rintro front rest rfl
    exact absurd (by simp) plain

/-- Where no comment has started, a text without a word is blank. -/
theorem dropBlanks_eq_nil (code : IsCode before) (none : hasNoWord before = true) :
    dropBlanks before = [] := by
  unfold hasNoWord at none
  split at none
  · assumption
  · rename_i letter rest found
    have parts := takeBlanks_append before
    rw [found, beq_iff_eq.1 none] at parts
    have outside : (before.takeWhile isBlank).count '\'' % 2 = 0 := by rw [count_quote_takeBlanks]
    obtain ⟨last, found, goes⟩ := code.uncommented _ _ parts.symm outside
    have blank := isBlank_of_mem_takeBlanks (List.mem_of_getLast? found)
    rw [endsWord_of_isBlank blank] at goes
    contradiction

end IsCode

theorem words_eq_cons {line : Text} (more : hasNoWord line = false) :
    words line = ⟨(spanWord true false (dropBlanks line)).1⟩ ::
      words (dropSeparator (spanWord true false (dropBlanks line)).2) := by
  rw [words, if_neg (by simp [more]), firstWord]

theorem eq_blank_of_dropBlanks {line : Text} (empty : dropBlanks line = []) :
    ∀ letter ∈ line, isBlank letter = true := by
  rw [← takeBlanks_append line, empty, List.append_nil]
  exact fun letter member => isBlank_of_mem_takeBlanks member

/-- Blanks before a comma belong to the separator. -/
theorem dropSeparator_append_comma {line : Text} (empty : dropBlanks line = []) (rest : Text) :
    dropSeparator (line ++ ',' :: rest) = rest :=
  dropSeparator_comma (eq_blank_of_dropBlanks empty) rest

/-- A comma that no word is in front of leaves an empty word. -/
theorem words_of_comma {line rest : Text} (found : dropBlanks line = ',' :: rest) :
    words line = ⟨[]⟩ :: words rest := by
  have more : hasNoWord line = false := by
    rw [hasNoWord, found]
    rfl
  have none : ∀ letter ∈ ([] : Text), isBlank letter = true := by simp
  have stops : spanWord true false (',' :: rest) = ([], ',' :: rest) := rfl
  have behind := dropSeparator_comma none rest
  rw [List.nil_append] at behind
  rw [words_eq_cons more, found, stops, behind]

/-- A word is awaited behind a separator as in the rest of its line. -/
theorem awaitsWord_dropSeparator {gap : Text} (filled : dropBlanks gap ≠ []) (front : Text) :
    awaitsWord (front ++ gap) = awaitsWord (dropSeparator gap) := by
  obtain ⟨letter, rest, found⟩ := List.exists_cons_of_ne_nil filled
  have parts := takeBlanks_append gap
  rw [found] at parts
  rw [dropSeparator, found]
  dsimp only
  by_cases comma : letter = ','
  · rw [← parts, ← List.append_assoc, comma, awaitsWord_comma]
    rfl
  · have solid := head?_dropBlanks (by rw [found, List.head?_cons])
    rw [if_neg (by simpa using comma), ← parts, ← List.append_assoc,
      awaitsWord_append_cons _ solid]

namespace IsCode

variable {before : Text} (code : IsCode before)
include code

/-- The literals of the first word are closed where no literal is open. -/
theorem paired_firstWord : (spanWord true false (dropBlanks before)).1.count '\'' % 2 = 0 := by
  by_cases whole : (spanWord true false (dropBlanks before)).2 = []
  · have parts := takeBlanks_spanWord before
    have paired := code.paired
    rw [whole, List.append_nil] at parts
    rwa [← parts, List.count_append, count_quote_takeBlanks, Nat.zero_add] at paired
  · simpa using paired_of_spanWord whole

theorem spanWord_comma (after : Text) :
    spanWord true false (dropBlanks before ++ ',' :: after) =
      ((spanWord true false (dropBlanks before)).1,
        (spanWord true false (dropBlanks before)).2 ++ ',' :: after) := by
  by_cases whole : (spanWord true false (dropBlanks before)).2 = []
  · have word := spanWord_append true false (dropBlanks before)
    have paired := code.paired_firstWord
    rw [whole, List.append_nil] at word
    have solid : spanWord true false (dropBlanks before) = (dropBlanks before, []) :=
      Prod.ext word whole
    rw [word] at paired
    rw [spanWord_append_of_solid solid (by simpa using paired) (by simp [endsWord]), solid]
    rfl
  · exact spanWord_append_of_rest whole (',' :: after)

/-- What is behind the first word and its separator is code, too. -/
theorem behind_firstWord (more : dropBlanks (spanWord true false (dropBlanks before)).2 ≠ []) :
    IsCode (dropSeparator (spanWord true false (dropBlanks before)).2) := by
  have parts := takeBlanks_spanWord before
  have paired := code.paired_firstWord
  have ends : ∀ letter, (spanWord true false (dropBlanks before)).2.head? = some letter →
      endsWord letter = true := fun letter first => endsWord_behind first
  generalize (spanWord true false (dropBlanks before)).1 = source at *
  generalize (spanWord true false (dropBlanks before)).2 = gap at *
  have filled : gap ≠ [] := by
    rintro rfl
    exact more rfl
  have separator := isSeparator_separatorOf filled ends
  have shape : (before.takeWhile isBlank ++ source ++ separatorOf gap) ++ dropSeparator gap =
      before := by
    rw [List.append_assoc, separatorOf_append, List.append_assoc, parts]
  rw [← shape] at code
  refine code.of_append ?_ fun letter last => ?_
  · rw [List.count_append, List.count_append, count_quote_takeBlanks,
      count_quote_eq_zero separator.ends]
    simpa using paired
  · rw [List.getLast?_append_of_ne_nil _ separator.filled] at last
    exact separator.ends letter (List.mem_of_getLast? last)

/-- Where nothing but blanks follows the first word, no other word is awaited. -/
theorem awaitsWord_eq_false (filled : dropBlanks before ≠ [])
    (empty : dropBlanks (spanWord true false (dropBlanks before)).2 = []) :
    awaitsWord before = false := by
  have parts := takeBlanks_spanWord before
  have paired := code.paired_firstWord
  have unbroken := unbroken_spanWord (dropBlanks before)
  have word := spanWord_append true false (dropBlanks before)
  generalize (spanWord true false (dropBlanks before)).1 = source at *
  generalize (spanWord true false (dropBlanks before)).2 = gap at *
  have lettered : source ≠ [] := by
    rintro rfl
    rw [List.nil_append] at word
    obtain ⟨letter, rest, found⟩ := List.exists_cons_of_ne_nil filled
    have solid := head?_dropBlanks (by rw [found, List.head?_cons])
    have blank := eq_blank_of_dropBlanks empty letter (by simp [word, found])
    rw [blank] at solid
    contradiction
  rw [← parts, ← List.append_assoc, awaitsWord_append_blank _ (eq_blank_of_dropBlanks empty)]
  exact unbroken.awaitsWord_append lettered paired _

end IsCode

/-- A comma cuts a line in two whose words come one behind the other. Where a word was awaited, an
empty one stands between them. -/
theorem words_comma {before : Text} (code : IsCode before) (after : Text) :
    words (before ++ ',' :: after) =
      words before ++ ((if awaitsWord before then [⟨[]⟩] else []) ++ words after) := by
  induction before using words.induct with
  | case1 before none =>
      have empty := code.dropBlanks_eq_nil none
      have awaits := awaitsWord_of_isBlank (eq_blank_of_dropBlanks empty)
      have found : dropBlanks (before ++ ',' :: after) = ',' :: after := by
        rw [dropBlanks_append_of_nil empty]
        rfl
      have quiet : words before = [] := by rw [words, if_pos none]
      rw [words_of_comma found, awaits, quiet]
      rfl
  | case2 before more inductionHypothesis =>
      have filled : hasNoWord before = false := by simpa using more
      have start := dropBlanks_ne_nil filled
      have moved := dropBlanks_append_of_ne_nil start (',' :: after)
      have moreToo : hasNoWord (before ++ ',' :: after) = false := by
        obtain ⟨letter, rest, found⟩ := List.exists_cons_of_ne_nil start
        rw [hasNoWord, found] at filled
        rw [hasNoWord, moved, found]
        exact filled
      rw [words_eq_cons moreToo, words_eq_cons filled, moved, code.spanWord_comma]
      by_cases empty : dropBlanks (spanWord true false (dropBlanks before)).2 = []
      · -- Only blanks are between the word and the comma.
        rw [dropSeparator_append_comma empty, code.awaitsWord_eq_false start empty,
          dropSeparator, empty, words_nil]
        rfl
      · have later := inductionHypothesis (code.behind_firstWord empty)
        have awaits := awaitsWord_dropSeparator empty
          (before.takeWhile isBlank ++ (spanWord true false (dropBlanks before)).1)
        rw [List.append_assoc, takeBlanks_spanWord] at awaits
        rw [firstWord] at later
        dsimp only at later
        rw [dropSeparator_append_of_ne_nil empty, later, awaits, List.cons_append]

/-- A text of blanks and commas ends in a comment or where its line ends, or a comma is its first
letter that is no blank. -/
theorem hasNoWord_or_comma {gap rest : Text} (bare : ∀ letter ∈ gap, endsWord letter = true)
    (ends : rest = [] ∨ rest.head? = some ';') :
    hasNoWord (gap ++ rest) = true ∨ ∃ behind, dropBlanks (gap ++ rest) = ',' :: behind := by
  cases found : dropBlanks gap with
  | nil =>
      left
      rw [hasNoWord, dropBlanks_append_of_nil found]
      rcases ends with rfl | first
      · rfl
      · obtain ⟨remark, rfl⟩ := List.head?_eq_some_iff.1 first
        rfl
  | cons letter behind =>
      right
      have filled : dropBlanks gap ≠ [] := by simp [found]
      have solid := head?_dropBlanks (by rw [found, List.head?_cons])
      have member : letter ∈ gap := (dropBlanks_sublist gap).subset (by simp [found])
      have comma := eq_comma_of_endsWord (bare letter member) solid
      exact ⟨behind ++ rest, by rw [dropBlanks_append_of_ne_nil filled, found, comma]; rfl⟩

/-- A stray comma leaves an empty word, unless it only ends the last word of its line. -/
theorem Stray.empty_or_last {before after : Text} (stray : Stray before after)
    (code : IsCode before) :
    ⟨[]⟩ ∈ words (before ++ ',' :: after) ∨
      (hasNoWord after = true ∧ words (before ++ ',' :: after) = words before) := by
  rw [words_comma code]
  cases awaits : awaitsWord before with
  | true => simp
  | false =>
      cases stray with
      | leading bare =>
          rw [awaitsWord_of_endsWord bare] at awaits
          contradiction
      | doubled same blank =>
          rw [same, awaitsWord_comma, awaitsWord_of_isBlank blank] at awaits
          contradiction
      | trailing same bare ends =>
          rw [same]
          rcases hasNoWord_or_comma bare ends with none | ⟨behind, found⟩
          · refine .inr ⟨none, ?_⟩
            rw [words.eq_1 (_ ++ _), if_pos none]
            simp
          · left
            rw [words_of_comma found]
            simp

/-- A line whose first word is empty starts with a comma. -/
theorem exists_comma_of_words {line : Text} {others : List Word}
    (same : words line = ⟨[]⟩ :: others) : ∃ rest, dropBlanks line = ',' :: rest := by
  cases none : hasNoWord line with
  | true =>
      rw [words, if_pos none] at same
      contradiction
  | false =>
      rw [words_eq_cons none] at same
      obtain ⟨letter, rest, found⟩ := List.exists_cons_of_ne_nil (dropBlanks_ne_nil none)
      have solid := head?_dropBlanks (by rw [found, List.head?_cons])
      have empty := congrArg Word.source (List.cons.inj same).1
      rw [found] at empty
      exact ⟨rest, by rw [found, eq_comma_of_spanWord empty solid]⟩

theorem Word.text_eq_nil {word : Word} : word.text = [] ↔ word.source = [] := by
  rw [Word.text, List.take_eq_nil_iff]
  exact or_iff_right (by decide)

/-- A word is kept without a letter only where it has none. -/
theorem nil_mem_keptWords {line : Text} : [] ∈ keptWords line ↔ ⟨[]⟩ ∈ words line := by
  constructor
  · intro kept
    obtain ⟨⟨source⟩, listed, empty⟩ := List.mem_map.1 kept
    obtain rfl : source = [] := Word.text_eq_nil.1 empty
    exact listed
  · exact fun listed => List.mem_map.2 ⟨⟨[]⟩, listed, rfl⟩

end DataSegment.Listing
