import DataSegment.Listing.Word

namespace DataSegment.Listing

/-- The characters that end a word outside of literals. -/
def endsWord (letter : Char) : Bool := isBlank letter || letter == ','

/-- A word that a line can hold: it starts no comment, its quotes are paired, and no blank or comma
stands outside of them. -/
structure Written (word : Text) : Prop where
  filled : word ≠ []
  solid : spanWord true false word = (word, [])
  paired : word.count '\'' % 2 = 0
  code : word.head? ≠ some ';'

/-- Whether a quote follows changes with each quote. -/
def insideAfter (inside : Bool) (letter : Char) : Bool :=
  if letter = '\'' then !inside else inside

theorem spanWord_cons (inside : Bool) (letter : Char) (rest : Text) :
    spanWord true inside (letter :: rest) =
      if !insideAfter inside letter && endsWord letter then ([], letter :: rest)
      else (letter :: (spanWord true (insideAfter inside letter) rest).1,
        (spanWord true (insideAfter inside letter) rest).2) := by
  simp [spanWord, insideAfter, endsWord]

/-- A word whose quotes are paired ends where a blank or a comma follows. -/
theorem spanWord_append_of_solid {inside : Bool} {word rest : Text}
    (solid : spanWord true inside word = (word, []))
    (paired : (word.count '\'' + inside.toNat) % 2 = 0)
    (ends : ∀ letter, rest.head? = some letter → endsWord letter) :
    spanWord true inside (word ++ rest) = (word, rest) := by
  induction word generalizing inside with
  | nil =>
      cases inside with
      | true => simp at paired
      | false =>
          cases rest with
          | nil => rfl
          | cons letter rest =>
              have blank := ends letter rfl
              have closed : insideAfter false letter = false := by
                by_cases quote : letter = '\''
                · rw [quote] at blank
                  exact absurd blank (by decide)
                · simp [insideAfter, quote]
              simp [spanWord_cons, closed, blank]
  | cons letter word inductionHypothesis =>
      rw [spanWord_cons] at solid
      split at solid
      · simp at solid
      · rename_i goes
        simp only [Prod.mk.injEq, List.cons.injEq, true_and] at solid
        have next : (word.count '\'' + (insideAfter inside letter).toNat) % 2 = 0 := by
          by_cases quote : letter = '\''
          · rw [quote, List.count_cons_self] at paired
            cases inside <;> simp [insideAfter, quote] at paired ⊢ <;> omega
          · rw [List.count_cons_of_ne quote] at paired
            simpa [insideAfter, quote] using paired
        rw [List.cons_append, spanWord_cons, if_neg goes,
          inductionHypothesis (Prod.ext solid.1 solid.2) next]

/-- A word of letters that mean nothing to the scanner can be written. -/
theorem Written.of_plain {word : Text} (filled : word ≠ [])
    (plain : ∀ letter ∈ word, endsWord letter = false ∧ letter ≠ '\'' ∧ letter ≠ ';') :
    Written word where
  filled := filled
  solid := by
    clear filled
    induction word with
    | nil => rfl
    | cons letter word inductionHypothesis =>
        obtain ⟨goes, quote, _⟩ := plain letter (List.mem_cons_self ..)
        have rest := inductionHypothesis fun other member =>
          plain other (List.mem_cons_of_mem _ member)
        simp [spanWord_cons, goes, insideAfter, quote, rest]
  paired := by
    rw [List.count_eq_zero_of_not_mem fun member => (plain _ member).2.1 rfl]
  code := by
    intro first
    exact (plain ';' (List.mem_of_mem_head? first)).2.2 rfl

/-- A written word starts with no blank and no comma. -/
theorem Written.exists_cons {word : Text} (written : Written word) :
    ∃ letter rest, word = letter :: rest ∧ endsWord letter = false ∧ letter ≠ ';' := by
  obtain ⟨letter, rest, same⟩ := List.exists_cons_of_ne_nil written.filled
  refine ⟨letter, rest, same, ?_, fun code => written.code (by simp [same, code])⟩
  have solid := written.solid
  rw [same, spanWord_cons] at solid
  split at solid
  · simp at solid
  · rename_i goes
    by_cases quote : letter = '\''
    · rw [quote]
      decide
    · simpa [insideAfter, quote] using goes

theorem dropBlanks_append {lead : Text} (blank : ∀ letter ∈ lead, isBlank letter) (rest : Text)
    (starts : ∀ letter, rest.head? = some letter → isBlank letter = false) :
    dropBlanks (lead ++ rest) = rest := by
  rw [dropBlanks, List.dropWhile_append_of_pos blank]
  cases rest with
  | nil => rfl
  | cons letter rest => rw [List.dropWhile_cons_of_neg (by simp [starts letter rfl])]

theorem Written.dropBlanks {lead word : Text} (blank : ∀ letter ∈ lead, isBlank letter)
    (written : Written word) (after : Text) :
    dropBlanks (lead ++ (word ++ after)) = word ++ after := by
  obtain ⟨letter, rest, rfl, goes, _⟩ := written.exists_cons
  apply dropBlanks_append blank
  intro other first
  have same : letter = other := by simpa using first
  rw [← same]
  simp only [endsWord, Bool.or_eq_false_iff] at goes
  exact goes.1

/-- The first word of a line is the one that was written there. -/
theorem words_append {lead word : Text} (blank : ∀ letter ∈ lead, isBlank letter)
    (written : Written word) (after : Text)
    (ends : ∀ letter, after.head? = some letter → endsWord letter) :
    words (lead ++ (word ++ after)) = ⟨word⟩ :: words (dropSeparator after) := by
  have start := written.dropBlanks blank after
  have span : spanWord true false (word ++ after) = (word, after) :=
    spanWord_append_of_solid written.solid (by simpa using written.paired) ends
  have more : hasNoWord (lead ++ (word ++ after)) = false := by
    obtain ⟨letter, rest, same, _, code⟩ := written.exists_cons
    rw [hasNoWord, start, same, List.cons_append]
    simpa using code
  have first : firstWord true (lead ++ (word ++ after)) = (⟨word⟩, after) := by
    rw [firstWord, start, span]
  rw [words, if_neg (by simp [more]), first]

theorem dropSeparator_comma {lead : Text} (blank : ∀ letter ∈ lead, isBlank letter) (rest : Text) :
    dropSeparator (lead ++ ',' :: rest) = rest := by
  have start := dropBlanks_append blank (',' :: rest) (by simp [isBlank])
  simp [dropSeparator, start]

/-- A blank stands between a word and what starts another one. -/
theorem words_append_start {word rest : Text} (written : Written word)
    (starts : ∀ letter, rest.head? = some letter → endsWord letter = false) :
    words (word ++ ' ' :: rest) = ⟨word⟩ :: words rest := by
  have none : ∀ letter ∈ ([] : Text), isBlank letter := by simp
  have step := words_append none written (' ' :: rest) (by simp [endsWord, isBlank])
  have start : dropBlanks ([' '] ++ rest) = rest := by
    refine dropBlanks_append (by simp [isBlank]) rest fun letter first => ?_
    exact (Bool.or_eq_false_iff.1 (starts letter first)).1
  rw [List.singleton_append] at start
  rw [List.nil_append, dropSeparator, start] at step
  cases rest with
  | nil => exact step
  | cons letter rest =>
      have goes := (Bool.or_eq_false_iff.1 (starts letter rfl)).2
      dsimp only at step
      rw [goes] at step
      exact step

/-- A blank between two words belongs to neither. -/
theorem words_append_blank {word next : Text} (written : Written word) (follows : Written next)
    (after : Text) :
    words (word ++ ' ' :: (next ++ after)) = ⟨word⟩ :: words (next ++ after) := by
  obtain ⟨letter, rest, rfl, goes, _⟩ := follows.exists_cons
  exact words_append_start written fun other first => Option.some.inj first ▸ goes

/-- A word before a comma comes back without it. -/
theorem words_append_comma {word : Text} (written : Written word) (rest : Text) :
    words (word ++ ',' :: rest) = ⟨word⟩ :: words rest := by
  have none : ∀ letter ∈ ([] : Text), isBlank letter := by simp
  have step := words_append none written (',' :: rest) (by simp [endsWord])
  have comma := dropSeparator_comma none rest
  rw [List.nil_append] at step comma
  rw [step, comma]

@[simp] theorem words_nil : words [] = [] := by
  rw [words]
  rfl

/-- Words between single commas come back in order. -/
theorem words_join {parts : List Text} (written : ∀ part ∈ parts, Written part) :
    words (Text.join [','] parts) = parts.map Word.mk := by
  induction parts with
  | nil => exact words_nil
  | cons part parts inductionHypothesis =>
      have first := written part (List.mem_cons_self ..)
      have others := inductionHypothesis fun other member =>
        written other (List.mem_cons_of_mem _ member)
      cases parts with
      | nil =>
          have none : ∀ letter ∈ ([] : Text), isBlank letter := by simp
          have alone := words_append none first [] (by simp)
          simpa [Text.join, dropSeparator, dropBlanks] using alone
      | cons next parts =>
          have step := words_append_comma first (Text.join [','] (next :: parts))
          rw [others] at step
          simpa [Text.join, List.intercalate_cons_cons] using step

theorem Word.text_of_short {word : Text} (short : word.length ≤ Word.limit) :
    (Word.mk word).text = word := List.take_of_length_le short

theorem map_text_of_short {parts : List Text} (short : ∀ part ∈ parts, part.length ≤ Word.limit) :
    (parts.map Word.mk).map Word.text = parts := by
  rw [List.map_map]
  exact (List.map_congr_left fun part member => Word.text_of_short (short part member)).trans
    (List.map_id _)

end DataSegment.Listing
