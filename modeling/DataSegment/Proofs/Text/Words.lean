import DataSegment.Proofs.Text.Parts

namespace DataSegment.Text

/-- Where two texts meet, the last piece of one and the first of the other become one. -/
theorem splitOnP_append (test : Char → Bool) (first second : Text) :
    ∃ front last next back, first.splitOnP test = front ++ [last] ∧
      second.splitOnP test = next :: back ∧
      (first ++ second).splitOnP test = front ++ (last ++ next) :: back := by
  induction first with
  | nil =>
      obtain ⟨next, back, same⟩ := List.exists_cons_of_ne_nil (List.splitOnP_ne_nil test second)
      exact ⟨[], [], next, back, rfl, same, same⟩
  | cons letter first inductionHypothesis =>
      obtain ⟨front, last, next, back, left, right, both⟩ := inductionHypothesis
      rw [List.cons_append, List.splitOnP_cons_eq_if_modifyHead,
        List.splitOnP_cons_eq_if_modifyHead, left, both]
      split
      · exact ⟨[] :: front, last, next, back, rfl, right, rfl⟩
      · cases front with
        | nil => exact ⟨[], letter :: last, next, back, rfl, right, rfl⟩
        | cons piece front => exact ⟨(letter :: piece) :: front, last, next, back, rfl, right, rfl⟩

theorem mem_words {text word : Text} :
    word ∈ words text ↔ word ∈ text.splitOnP isWhite ∧ word ≠ [] := by
  simp [words]

theorem solid_of_mem_splitOnP {test : Char → Bool} {text piece : Text}
    (member : piece ∈ text.splitOnP test) : ∀ letter ∈ piece, test letter = false := by
  induction text generalizing piece with
  | nil => simp_all
  | cons head text inductionHypothesis =>
      rw [List.splitOnP_cons_eq_if_modifyHead] at member
      split at member
      · rcases List.mem_cons.1 member with rfl | member
        · simp
        · exact inductionHypothesis member
      · rename_i solid
        obtain ⟨first, others, same⟩ :=
          List.exists_cons_of_ne_nil (List.splitOnP_ne_nil test text)
        rw [same, List.modifyHead_cons] at member
        have each {piece : Text} (listed : piece ∈ first :: others) :
            ∀ letter ∈ piece, test letter = false := inductionHypothesis (same ▸ listed)
        rcases List.mem_cons.1 member with rfl | member
        · exact List.forall_mem_cons.2 ⟨by simpa using solid, each (List.mem_cons_self ..)⟩
        · exact each (List.mem_cons_of_mem _ member)

theorem mem_of_mem_splitOnP {test : Char → Bool} {text piece : Text}
    (member : piece ∈ text.splitOnP test) : ∀ letter ∈ piece, letter ∈ text := by
  induction text generalizing piece with
  | nil => simp_all
  | cons head text inductionHypothesis =>
      rw [List.splitOnP_cons_eq_if_modifyHead] at member
      split at member
      · rcases List.mem_cons.1 member with rfl | member
        · simp
        · exact fun letter inside => List.mem_cons_of_mem _ (inductionHypothesis member letter inside)
      · obtain ⟨first, others, same⟩ :=
          List.exists_cons_of_ne_nil (List.splitOnP_ne_nil test text)
        rw [same, List.modifyHead_cons] at member
        have each {piece : Text} (listed : piece ∈ first :: others) (letter : Char)
            (inside : letter ∈ piece) : letter ∈ head :: text :=
          List.mem_cons_of_mem _ (inductionHypothesis (same ▸ listed) letter inside)
        rcases List.mem_cons.1 member with rfl | member
        · exact List.forall_mem_cons.2 ⟨List.mem_cons_self .., each (List.mem_cons_self ..)⟩
        · exact each (List.mem_cons_of_mem _ member)

theorem solid_of_mem_words {text word : Text} (member : word ∈ words text) :
    ∀ letter ∈ word, isWhite letter = false := solid_of_mem_splitOnP (mem_words.1 member).1

/-- A character that is not white only makes a word of its own where it stands. -/
theorem mem_words_append_cons {letter : Char} (solid : isWhite letter = false)
    {first second word : Text} (member : word ∈ words (first ++ letter :: second)) :
    word ∈ words first ∨ word ∈ words second ∨ letter ∈ word := by
  obtain ⟨front, last, next, back, left, right, both⟩ :=
    splitOnP_append isWhite first (letter :: second)
  obtain ⟨piece, others, same⟩ := List.exists_cons_of_ne_nil (List.splitOnP_ne_nil isWhite second)
  rw [List.splitOnP_cons_eq_if_modifyHead, if_neg (by simp [solid]), same,
    List.modifyHead_cons] at right
  obtain ⟨rfl, rfl⟩ := List.cons.inj right
  obtain ⟨member, filled⟩ := mem_words.1 member
  rw [both] at member
  rcases List.mem_append.1 member with member | member
  · exact .inl (mem_words.2 ⟨by simp [left, member], filled⟩)
  · rcases List.mem_cons.1 member with rfl | member
    · exact .inr (.inr (by simp))
    · exact .inr (.inl (mem_words.2 ⟨by simp [same, member], filled⟩))

/-- A text with a character that is not white has a word. -/
theorem words_ne_nil {text : Text} {letter : Char} (member : letter ∈ text)
    (solid : isWhite letter = false) : words text ≠ [] := by
  obtain ⟨first, second, rfl⟩ := List.append_of_mem member
  obtain ⟨front, last, next, back, _, right, both⟩ :=
    splitOnP_append isWhite first (letter :: second)
  obtain ⟨piece, others, same⟩ := List.exists_cons_of_ne_nil (List.splitOnP_ne_nil isWhite second)
  rw [List.splitOnP_cons_eq_if_modifyHead, if_neg (by simp [solid]), same,
    List.modifyHead_cons] at right
  obtain ⟨rfl, _⟩ := List.cons.inj right
  have found : last ++ letter :: piece ∈ words (first ++ letter :: second) :=
    mem_words.2 ⟨by simp [both], by simp⟩
  exact List.ne_nil_of_mem found

/-- What follows a character without white space belongs to its word. -/
theorem exists_words_append_solid {letter : Char} (solid : isWhite letter = false) (first : Text) :
    ∃ front last, ∀ second, (∀ other ∈ second, isWhite other = false) →
      words (first ++ letter :: second) = front ++ [last ++ letter :: second] := by
  obtain ⟨pieces, last, _, _, left, _⟩ := splitOnP_append isWhite first []
  refine ⟨pieces.filter fun word => !word.isEmpty, last, fun second others => ?_⟩
  obtain ⟨front, piece, next, back, same, right, both⟩ :=
    splitOnP_append isWhite first (letter :: second)
  obtain ⟨rfl, single⟩ := List.append_inj' (left.symm.trans same) rfl
  obtain rfl : last = piece := by simpa using single
  rw [List.splitOnP_eq_singleton (List.forall_mem_cons.2 ⟨solid, others⟩)] at right
  obtain ⟨rfl, rfl⟩ := List.cons.inj right
  rw [words, both, List.filter_append]
  simp

theorem unwords_cons_cons (word next : Text) (entries : List Text) :
    unwords (word :: next :: entries) = word ++ ' ' :: unwords (next :: entries) := by
  simp [unwords, join, List.intercalate_cons_cons]

theorem unwords_append_singleton {entries : List Text} (filled : entries ≠ []) (word : Text) :
    unwords (entries ++ [word]) = unwords entries ++ ' ' :: word := by
  induction entries with
  | nil => exact absurd rfl filled
  | cons first entries inductionHypothesis =>
      cases entries with
      | nil => simp [unwords, join, List.intercalate_cons_cons]
      | cons next entries =>
          have rest := inductionHypothesis (by simp)
          have parted : unwords (first :: next :: entries ++ [word]) =
              first ++ ' ' :: unwords (next :: entries ++ [word]) :=
            unwords_cons_cons first next (entries ++ [word])
          rw [parted, rest, unwords_cons_cons, List.append_assoc, List.cons_append]

theorem unwords_append_glued (front : List Text) (first second : Text) :
    unwords (front ++ [first ++ second]) = unwords (front ++ [first]) ++ second := by
  cases front with
  | nil => simp [unwords, join]
  | cons word front =>
      rw [unwords_append_singleton (by simp), unwords_append_singleton (by simp)]
      simp

/-- Words come back from a text in which one space stands between neighbours. -/
theorem words_unwords {entries : List Text}
    (each : ∀ word ∈ entries, word ≠ [] ∧ ∀ letter ∈ word, isWhite letter = false) :
    words (unwords entries) = entries := by
  induction entries with
  | nil => simp [unwords, join]
  | cons word entries inductionHypothesis =>
      obtain ⟨filled, solid⟩ := each word (List.mem_cons_self ..)
      cases entries with
      | nil => simpa [unwords, join] using words_of_solid filled solid
      | cons next entries =>
          rw [unwords_cons_cons, words_append_white (by decide), words_of_solid filled solid,
            inductionHypothesis fun other member => each other (List.mem_cons_of_mem _ member)]
          rfl

theorem words_unwords_words (text : Text) : words (unwords (words text)) = words text :=
  words_unwords fun _ member => ⟨(mem_words.1 member).2, solid_of_mem_words member⟩

/-- A text that is its words with one space between neighbours. -/
structure SingleSpaced (text : Text) : Prop where
  plain : ∀ letter ∈ text, isWhite letter = true → letter = ' '
  filled : [] ∉ text.splitOnP isWhite

namespace SingleSpaced

theorem ne_nil {text : Text} (spaced : SingleSpaced text) : text ≠ [] := by
  intro equal
  subst equal
  exact spaced.filled (by simp)

theorem words_eq {text : Text} (spaced : SingleSpaced text) :
    words text = text.splitOnP isWhite := by
  rw [words, List.filter_eq_self]
  intro word member
  rw [Bool.not_eq_true', List.isEmpty_eq_false_iff]
  intro equal
  subst equal
  exact spaced.filled member

theorem join_splitOnP {text : Text}
    (plain : ∀ letter ∈ text, isWhite letter = true → letter = ' ') :
    join [' '] (text.splitOnP isWhite) = text := by
  induction text with
  | nil => rfl
  | cons letter text inductionHypothesis =>
      have rest := inductionHypothesis fun other member =>
        plain other (List.mem_cons_of_mem _ member)
      obtain ⟨piece, others, same⟩ := List.exists_cons_of_ne_nil (List.splitOnP_ne_nil isWhite text)
      rw [same] at rest
      rw [List.splitOnP_cons_eq_if_modifyHead, same]
      split
      · rename_i white
        rw [plain letter (List.mem_cons_self ..) white, join, List.intercalate_cons_cons, ← join,
          rest]
        rfl
      · rw [List.modifyHead_cons]
        cases others with
        | nil => simpa [join] using rest
        | cons next others =>
            rw [join, List.intercalate_cons_cons] at rest ⊢
            rw [← rest]
            rfl

theorem unwords_words {text : Text} (spaced : SingleSpaced text) : unwords (words text) = text := by
  rw [spaced.words_eq, unwords, join_splitOnP spaced.plain]

theorem of_solid {text : Text} (filled : text ≠ [])
    (solid : ∀ letter ∈ text, isWhite letter = false) : SingleSpaced text where
  plain letter member white := by simp [solid letter member] at white
  filled := by
    rw [List.splitOnP_eq_singleton solid]
    simpa using filled.symm

theorem append {first second : Text} (left : SingleSpaced first) (right : SingleSpaced second) :
    SingleSpaced (first ++ second) where
  plain letter member white := by
    rcases List.mem_append.1 member with member | member
    · exact left.plain letter member white
    · exact right.plain letter member white
  filled := by
    obtain ⟨front, last, next, back, before, after, both⟩ := splitOnP_append isWhite first second
    have leftFilled := left.filled
    have rightFilled := right.filled
    rw [before] at leftFilled
    rw [after] at rightFilled
    rw [both]
    simp_all

theorem append_space {first second : Text} (left : SingleSpaced first)
    (right : SingleSpaced second) : SingleSpaced (first ++ ' ' :: second) where
  plain letter member white := by
    rcases List.mem_append.1 member with member | member
    · exact left.plain letter member white
    · rcases List.mem_cons.1 member with rfl | member
      · rfl
      · exact right.plain letter member white
  filled := by
    rw [List.splitOnP_append_cons _ _ (by decide)]
    simpa using ⟨left.filled, right.filled⟩

theorem head_solid {letter : Char} {rest : Text} (spaced : SingleSpaced (letter :: rest)) :
    isWhite letter = false := by
  cases white : isWhite letter with
  | false => rfl
  | true =>
      refine absurd ?_ spaced.filled
      rw [List.splitOnP_cons_eq_if_modifyHead, if_pos white]
      exact List.mem_cons_self ..

theorem last_solid {letter : Char} {front : Text} (spaced : SingleSpaced (front ++ [letter])) :
    isWhite letter = false := by
  cases white : isWhite letter with
  | false => rfl
  | true =>
      refine absurd ?_ spaced.filled
      rw [List.splitOnP_append_cons _ _ white]
      simp

theorem trim_eq {text : Text} (spaced : SingleSpaced text) : trim text = text := by
  refine trim_of_solid_ends ?_ ?_
  · intro letter first
    obtain ⟨rest, rfl⟩ := List.head?_eq_some_iff.1 first
    exact spaced.head_solid
  · intro letter last
    obtain ⟨front, rfl⟩ := List.getLast?_eq_some_iff.1 last
    exact spaced.last_solid

theorem trim_append_space {text : Text} (spaced : SingleSpaced text) :
    trim (text ++ [' ']) = text := by
  have start : trimStart (text ++ [' ']) = text ++ [' '] := by
    obtain ⟨letter, rest, rfl⟩ := List.exists_cons_of_ne_nil spaced.ne_nil
    exact List.dropWhile_cons_of_neg (by simp [spaced.head_solid])
  have last : trimEnd (text ++ [' ']) = trimEnd text := by
    rw [trimEnd, List.reverse_append, List.reverse_singleton, List.singleton_append,
      List.dropWhile_cons_of_pos (by decide), trimEnd]
  have whole := spaced.trim_eq
  obtain ⟨letter, rest, rfl⟩ := List.exists_cons_of_ne_nil spaced.ne_nil
  rw [trim, trimStart, List.dropWhile_cons_of_neg (by simp [spaced.head_solid])] at whole
  rw [trim, start, last, whole]

theorem unwords_of_solid {entries : List Text} (filled : entries ≠ [])
    (each : ∀ word ∈ entries, word ≠ [] ∧ ∀ letter ∈ word, isWhite letter = false) :
    SingleSpaced (unwords entries) := by
  induction entries with
  | nil => exact absurd rfl filled
  | cons word entries inductionHypothesis =>
      obtain ⟨some, solid⟩ := each word (List.mem_cons_self ..)
      have first := of_solid some solid
      cases entries with
      | nil => simpa [unwords, join] using first
      | cons next entries =>
          rw [unwords_cons_cons]
          exact first.append_space (inductionHypothesis (by simp) fun other member =>
            each other (List.mem_cons_of_mem _ member))

/-- The words of a text have single spaces between them when they are joined. -/
theorem of_words {text : Text} (filled : words text ≠ []) : SingleSpaced (unwords (words text)) :=
  unwords_of_solid filled fun _ member => ⟨(mem_words.1 member).2, solid_of_mem_words member⟩

theorem of_unwords_words {text : Text} (filled : text ≠ []) (same : unwords (words text) = text) :
    SingleSpaced text := by
  rw [← same]
  refine of_words fun empty => ?_
  rw [empty] at same
  exact filled same.symm

end SingleSpaced

theorem mem_unwords {entries : List Text} {letter : Char} (member : letter ∈ unwords entries) :
    letter = ' ' ∨ ∃ word ∈ entries, letter ∈ word := by
  induction entries with
  | nil => simp [unwords, join] at member
  | cons word entries inductionHypothesis =>
      cases entries with
      | nil => exact .inr ⟨word, by simp, by simpa [unwords, join] using member⟩
      | cons next entries =>
          rw [unwords_cons_cons] at member
          rcases List.mem_append.1 member with member | member
          · exact .inr ⟨word, List.mem_cons_self .., member⟩
          · rcases List.mem_cons.1 member with rfl | member
            · exact .inl rfl
            · rcases inductionHypothesis member with space | ⟨other, listed, member⟩
              · exact .inl space
              · exact .inr ⟨other, List.mem_cons_of_mem _ listed, member⟩

end DataSegment.Text
