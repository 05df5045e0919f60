import DataSegment.Proofs.Listing.Spelling
import DataSegment.Proofs.Text.Bytes

namespace DataSegment

namespace Listing

open Text.Unicode (size dropBytes? dropBytes?_append size_append)

/-- Where the blanks behind an offset end. -/
def blanksEnd? (line : Text) (offset : Nat) : Option Nat :=
  (dropBytes? offset line).map fun rest => offset + size rest - size (dropBlanks rest)

/-- Whether no word follows an offset. -/
def isEnd? (line : Text) (offset : Nat) : Option Bool := do
  let start ← blanksEnd? line offset
  let rest ← dropBytes? start line
  return rest.isEmpty || rest.head? == some ';'

/-- The word behind an offset, and where it ends. -/
def wordAt? (line : Text) (offset : Nat) : Option (Word × Nat) := do
  let start ← blanksEnd? line offset
  let rest ← dropBytes? start line
  let halves := spanWord true false rest
  return (⟨halves.1⟩, if halves.2 = [] then size line else start + size halves.1)

/-- What one turn takes off a line: a word and where the next turn starts, or nothing where no word
follows. There is no turn when one of its offsets does not stand between two characters. -/
def turn? (line : Text) (offset : Nat) : Option (Option (Word × Nat)) := do
  if ← isEnd? line offset then return none
  let found ← wordAt? line offset
  let next ← blanksEnd? line found.2
  let rest ← dropBytes? next line
  return some (found.1, if rest.head? = some ',' then next + 1 else next)

/-- The turns from an offset on until no word follows, and the words that they take. -/
inductive Turns (line : Text) : Nat → List Word → Prop where
  | done {offset : Nat} (ends : turn? line offset = some none) : Turns line offset []
  | word {offset next : Nat} {word : Word} {others : List Word}
      (taken : turn? line offset = some (some (word, next))) (later : Turns line next others) :
      Turns line offset (word :: others)

theorem Turns.unique {line : Text} {offset : Nat} {found other : List Word}
    (turns : Turns line offset found) (turnsToo : Turns line offset other) : found = other := by
  induction turns generalizing other with
  | done ends =>
      cases turnsToo with
      | done => rfl
      | word taken => simp [ends] at taken
  | word taken _ inductionHypothesis =>
      cases turnsToo with
      | done ends => simp [ends] at taken
      | word takenToo later =>
          rw [taken, Option.some.injEq, Option.some.injEq, Prod.mk.injEq] at takenToo
          obtain ⟨rfl, rfl⟩ := takenToo
          rw [inductionHypothesis later]

theorem blanksEnd?_append (first rest : Text) :
    blanksEnd? (first ++ rest) (size first) = some (size (first ++ rest.takeWhile isBlank)) := by
  have parts := congrArg size (takeBlanks_append rest)
  rw [size_append] at parts
  rw [blanksEnd?, dropBytes?_append, Option.map_some, size_append, ← parts]
  congr 1
  omega

theorem isEnd?_append (first rest : Text) :
    isEnd? (first ++ rest) (size first) = some (hasNoWord rest) := by
  have behind : dropBytes? (size (first ++ rest.takeWhile isBlank)) (first ++ rest) =
      some (dropBlanks rest) := by
    have found := dropBytes?_append (first ++ rest.takeWhile isBlank) (dropBlanks rest)
    rwa [List.append_assoc, takeBlanks_append] at found
  rw [isEnd?, blanksEnd?_append, Option.bind_eq_bind, Option.bind_some, behind, hasNoWord]
  cases dropBlanks rest <;> rfl

theorem wordAt?_append (first rest : Text) :
    wordAt? (first ++ rest) (size first) =
      some ((firstWord true rest).1,
        size (first ++ rest.takeWhile isBlank ++ (firstWord true rest).1.source)) := by
  have whole := spanWord_append true false (dropBlanks rest)
  have line : first ++ rest = first ++ rest.takeWhile isBlank ++ dropBlanks rest := by
    rw [List.append_assoc, takeBlanks_append]
  have behind : dropBytes? (size (first ++ rest.takeWhile isBlank)) (first ++ rest) =
      some (dropBlanks rest) := by rw [line, dropBytes?_append]
  rw [wordAt?, blanksEnd?_append, Option.bind_eq_bind, Option.bind_some, behind,
    Option.bind_eq_bind, Option.bind_some, firstWord]
  dsimp only
  split
  · rename_i last
    rw [last, List.append_nil] at whole
    rw [line, whole]
    rfl
  · rw [← size_append]
    rfl

theorem turn?_of_end {first rest : Text} (none : hasNoWord rest = true) :
    turn? (first ++ rest) (size first) = some Option.none := by
  rw [turn?, isEnd?_append, none]
  rfl

/-- A turn takes the first word and the separator behind it. -/
theorem turn?_of_word {first rest : Text} (more : hasNoWord rest = false) :
    ∃ before, first ++ rest = before ++ dropSeparator (firstWord true rest).2 ∧
      turn? (first ++ rest) (size first) =
        some (some ((firstWord true rest).1, size before)) := by
  have whole := spanWord_append true false (dropBlanks rest)
  generalize found : firstWord true rest = word at *
  have line : first ++ rest =
      first ++ rest.takeWhile isBlank ++ word.1.source ++ word.2 := by
    rw [← found, firstWord]
    dsimp only
    rw [List.append_assoc, List.append_assoc, whole, takeBlanks_append]
  generalize front : first ++ rest.takeWhile isBlank ++ word.1.source = before at line
  refine ⟨before ++ separatorOf word.2, ?_, ?_⟩
  · rw [List.append_assoc, separatorOf_append, line]
  · have stop := wordAt?_append first rest
    rw [found, front] at stop
    have behind : dropBytes? (size (before ++ word.2.takeWhile isBlank)) (before ++ word.2) =
        some (dropBlanks word.2) := by
      have found := dropBytes?_append (before ++ word.2.takeWhile isBlank) (dropBlanks word.2)
      rwa [List.append_assoc, takeBlanks_append] at found
    rw [turn?, isEnd?_append, more, stop, line]
    simp only [Option.bind_eq_bind, Option.bind_some, Bool.false_eq_true, ↓reduceIte,
      blanksEnd?_append, behind]
    rw [separatorOf, ← List.append_assoc, size_append (before ++ word.2.takeWhile isBlank)]
    split
    · rfl
    · rfl

/-- The turns take the words of what follows an offset. -/
theorem turns_words (first rest : Text) : Turns (first ++ rest) (size first) (words rest) := by
  induction rest using words.induct generalizing first with
  | case1 rest none =>
      rw [words, if_pos none]
      exact .done (turn?_of_end none)
  | case2 rest more inductionHypothesis =>
      obtain ⟨before, line, taken⟩ := turn?_of_word (by simpa using more)
      have later := inductionHypothesis before
      rw [← line] at later
      rw [words, if_neg more]
      exact .word taken later

/-- The turns through a line come to an end with all offsets between two characters, and take the
words of the line. The blanks at its start, these words, a separator behind each of them and perhaps
a comment are the whole line. What is kept of a word is its start, and each word that is longer is
remarked upon. -/
theorem words_lossless (line : Text) :
    (∀ found, Turns line 0 found ↔ found = words line) ∧
      (∃ lead text, line = lead ++ text ∧ (∀ letter ∈ lead, isBlank letter = true) ∧
        Spells ((words line).map Word.source) text) ∧
      keptWords line = ((words line).map Word.source).map (List.take 255) ∧
      Environment.truncationRemarks (words line) =
        (((words line).map Word.source).filter fun source => 255 < source.length).map
          fun source => .truncated (source.take 255) := by
  have turns := turns_words [] line
  refine ⟨fun found => ⟨fun other => other.unique turns, ?_⟩, spells_words line, ?_, ?_⟩
  · rintro rfl
    exact turns
  · rw [keptWords, List.map_map]
    rfl
  · rw [Environment.truncationRemarks, List.filter_map, List.map_map]
    rfl

end Listing

end DataSegment
