import DataSegment.Proofs.Header.RoundTrip
import DataSegment.Proofs.Header.Statement

namespace DataSegment.Header

open Text

theorem spaceStars_append (first second : Text) :
    spaceStars (first ++ second) = spaceStars first ++ spaceStars second := by
  simp [spaceStars]

theorem routineWords_append_white {letter : Char} (white : isWhite letter = true)
    (first rest : Text) :
    routineWords (first ++ letter :: rest) = routineWords first ++ routineWords rest := by
  have other : letter ≠ '*' := by
    rintro rfl
    exact absurd white (by decide)
  have kept : spaceStars (letter :: rest) = letter :: spaceStars rest := by
    simp [spaceStars, other]
  rw [routineWords, spaceStars_append, kept, words_append_white white, routineWords, routineWords]

/-- Stars come apart from the words of a text one word at a time. -/
theorem routineWords_eq_flatMap (text : Text) :
    routineWords text = (words text).flatMap routineWords := by
  induction size : text.length using Nat.strong_induction_on generalizing text with
  | _ size shorter =>
      by_cases blank : ∃ letter ∈ text, isWhite letter = true
      · obtain ⟨letter, member, white⟩ := blank
        obtain ⟨first, rest, rfl⟩ := List.append_of_mem member
        rw [List.length_append, List.length_cons] at size
        rw [routineWords_append_white white, words_append_white white, List.flatMap_append,
          shorter _ (by omega) first rfl, shorter _ (by omega) rest rfl]
      · by_cases filled : text = []
        · rw [filled, words_nil]
          rfl
        · have solid : ∀ letter ∈ text, isWhite letter = false := by simpa using blank
          rw [words_of_solid filled solid, List.flatMap_singleton]

theorem routineWords_append_star (first second : Text) :
    routineWords (first ++ '*' :: second) = routineWords first ++ ['*'] :: routineWords second := by
  have apart : spaceStars ('*' :: second) = ' ' :: ([] ++ '*' :: ' ' :: spaceStars second) := by
    simp [spaceStars]
  have star : words ([] ++ '*' :: ' ' :: spaceStars second) = ['*'] :: words (spaceStars second) :=
    words_append_white (show isWhite ' ' = true by decide) ['*'] (spaceStars second)
  rw [routineWords, spaceStars_append, apart, words_append_white (by decide), star, routineWords,
    routineWords]

/-- The words of an identifier are itself, whether stars are set apart or not. -/
theorem words_of_isIdentifier {name : Text} (identifier : isIdentifier name = true) :
    words name = [name] ∧ routineWords name = [name] := by
  have alone : words name = [name] :=
    words_of_solid (ne_nil_of_isIdentifier identifier) fun letter member =>
      (unrestricted_of_isIdentifier identifier letter member).1
  refine ⟨alone, ?_⟩
  rw [routineWords, spaceStars_eq (not_mem_of_isIdentifier identifier (by decide)), alone]

/-- The words that open the definition of a type. -/
def tags : List Text := ["struct".toList, "union".toList, "enum".toList, "class".toList]

/-- Only a type is defined by nothing, by a statement with `typedef` and by a tag with one word. -/
theorem definesType_eq_true_iff {text : Text} :
    definesType text = true ↔
      words text = [] ∨ (∃ rest, words text = "typedef".toList :: rest) ∨
        ∃ tag ∈ tags, ∃ word, words text = [tag, word] := by
  have both : ["typedef".toList, "struct".toList, "union".toList, "enum".toList,
      "class".toList] = "typedef".toList :: tags := rfl
  have known (word : Text) (others : List Text) :
      (∃ rest, word :: others = "typedef".toList :: rest) ↔ word = "typedef".toList :=
    ⟨fun ⟨_, same⟩ => (List.cons.inj same).1, fun same => ⟨others, by rw [same]⟩⟩
  unfold definesType
  rw [both]
  split
  · rename_i none
    simp only [none, true_or]
  · rename_i first single
    rw [single, known, decide_eq_true_iff]
    simp
  · rename_i first second pair
    rw [pair, known, List.contains_iff_mem, List.mem_cons]
    simp
  · rename_i first rest _ short many
    have more (word : Text) : rest ≠ [word] := by
      rintro rfl
      exact short word rfl
    rw [many, known, decide_eq_true_iff]
    simp [more]

/-- A type of one or more words in front of a star. No word of it is a specifier or `typedef`, and
none names a convention when its stars are set apart. -/
structure IsPointee (type : Text) : Prop where
  filled : type ≠ []
  trimmed : trim type = type
  plain : IsPlain type
  flat : ∀ letter ∈ ['(', '[', '<'], letter ∉ type
  unspecified : ∀ word ∈ words type, word ∉ specifiers ∧ word ≠ "typedef".toList
  silent : ∀ word ∈ routineWords type, Convention.ofKeyword? word = none

/-- A star between a type and what is declared, with white space on either side of it. -/
def starred (type before after declared : Text) : Text :=
  type ++ (before ++ '*' :: (after ++ declared))

/-- The words of the type of a pointer, its star included. -/
def starredWords (type before : Text) : List Text := words (type ++ (before ++ ['*']))

/-- A star that is attached to the name can leave two words, the first of which opens the definition
of a type. -/
def IsHidden (type before after : Text) : Prop :=
  after = [] ∧ ∃ tag ∈ tags,
    if before = [] then ∃ word, words type = [tag, word] else words type = [tag]

/-- The words in front of the last word of the type of a pointer, whose star is joined to the last
word of the type when nothing stands between them. -/
structure Joins (type before : Text) (others : List Text) (last : Text) : Prop where
  apart : if before = [] then ∃ word, words type = others ++ [word] else words type = others
  joined : starredWords type before = others ++ [last ++ ['*']]

section

variable {type before after declared name : Text}

namespace Joins

variable {others : List Text} {last : Text}

theorem mem (joins : Joins type before others last) {word : Text} (member : word ∈ others) :
    word ∈ words type := by
  have apart := joins.apart
  split at apart
  · obtain ⟨other, same⟩ := apart
    rw [same]
    exact List.mem_append_left _ member
  · rwa [apart]

theorem eq_singleton_iff (joins : Joins type before others last) (tag : Text) :
    others = [tag] ↔
      if before = [] then ∃ word, words type = [tag, word] else words type = [tag] := by
  have apart := joins.apart
  split at apart
  · rename_i attached
    obtain ⟨other, same⟩ := apart
    rw [if_pos attached, same]
    constructor
    · intro single
      exact ⟨other, by rw [single]; rfl⟩
    · rintro ⟨word, pair⟩
      exact (List.append_inj' (pair.trans (List.append_cons [] tag [word])) rfl).1
  · rename_i spaced
    rw [if_neg spaced, apart]

end Joins

theorem IsPointee.exists_last (pointee : IsPointee type) :
    ∃ front letter, type = front ++ [letter] ∧ isWhite letter = false := by
  obtain ⟨letter, last⟩ := Option.isSome_iff_exists.1 (List.getLast?_isSome.2 pointee.filled)
  obtain ⟨front, rfl⟩ := List.getLast?_eq_some_iff.1 last
  refine ⟨front, letter, rfl, ?_⟩
  cases white : isWhite letter with
  | false => rfl
  | true =>
      have shorter := congrArg List.length pointee.trimmed
      have bound : (trim front).length ≤ front.length := by
        rw [trim, trimEnd, List.length_reverse]
        refine (List.dropWhile_sublist _).length_le.trans ?_
        rw [List.length_reverse]
        exact (List.dropWhile_sublist _).length_le
      rw [trim_append_white white, List.length_append, List.length_singleton] at shorter
      omega

theorem isPlain_starred (pointee : IsPointee type)
    (front : ∀ letter ∈ before, isWhite letter = true)
    (back : ∀ letter ∈ after, isWhite letter = true) (plain : IsPlain declared) :
    IsPlain (starred type before after declared) := by
  have star : IsPlain ['*'] := by
    intro letter member
    rw [List.mem_singleton.1 member]
    decide
  exact pointee.plain.append ((IsPlain.of_white front).append
    (star.append ((IsPlain.of_white back).append plain)))

theorem starredWords_ne_nil (type before : Text) : starredWords type before ≠ [] :=
  words_ne_nil (show '*' ∈ _ by simp) (by decide)

theorem words_starred_ne_nil (type before after declared : Text) :
    words (starred type before after declared) ≠ [] :=
  words_ne_nil (show '*' ∈ _ by simp [starred]) (by decide)

/-- A star joins the name behind it, and the last word of the type in front of it, when nothing
stands between them. -/
theorem exists_words_starred (pointee : IsPointee type)
    (front : ∀ letter ∈ before, isWhite letter = true)
    (back : ∀ letter ∈ after, isWhite letter = true) (filled : declared ≠ [])
    (solid : ∀ letter ∈ declared, isWhite letter = false) :
    ∃ others last, Joins type before others last ∧
      words (starred type before after declared) =
        others ++ if after = [] then [last ++ '*' :: declared] else [last ++ ['*'], declared] := by
  obtain ⟨others, last, known, joined⟩ : ∃ others last,
      (if before = [] then ∃ word, words type = others ++ [word] else words type = others) ∧
      ∀ behind, (∀ letter ∈ behind, isWhite letter = false) →
        words (type ++ (before ++ '*' :: behind)) = others ++ [last ++ '*' :: behind] := by
    by_cases attached : before = []
    · obtain ⟨start, letter, rfl, ends⟩ := pointee.exists_last
      obtain ⟨others, last, joined⟩ := exists_words_append_solid ends start
      refine ⟨others, last ++ [letter], ?_, fun behind plain => ?_⟩
      · rw [if_pos attached]
        exact ⟨last ++ [letter], joined [] (by simp)⟩
      · have whole := joined ('*' :: behind) (List.forall_mem_cons.2 ⟨by decide, plain⟩)
        simpa [attached] using whole
    · refine ⟨words type, [], by rw [if_neg attached], fun behind plain => ?_⟩
      rw [words_append_blank ⟨attached, front⟩, List.nil_append,
        words_of_solid (by simp) (List.forall_mem_cons.2 ⟨by decide, plain⟩)]
  have star : starredWords type before = others ++ [last ++ ['*']] := joined [] (by simp)
  refine ⟨others, last, ⟨known, star⟩, ?_⟩
  by_cases attached : after = []
  · rw [if_pos attached, starred, attached, List.nil_append, joined declared solid]
  · have parts : starred type before after declared =
        (type ++ (before ++ ['*'])) ++ (after ++ declared) := by simp [starred]
    rw [if_neg attached, parts, words_append_blank ⟨attached, back⟩, words_of_solid filled solid,
      ← starredWords, star, List.append_assoc]
    rfl

/-- Between single spaces a star stays in front of what is declared, with one space at most. -/
theorem unwords_words_starred (pointee : IsPointee type)
    (front : ∀ letter ∈ before, isWhite letter = true)
    (back : ∀ letter ∈ after, isWhite letter = true) (filled : declared ≠ [])
    (solid : ∀ letter ∈ declared, isWhite letter = false) :
    unwords (words (starred type before after declared)) =
      unwords (starredWords type before) ++ ((if after = [] then [] else [' ']) ++ declared) := by
  obtain ⟨others, last, joins, whole⟩ := exists_words_starred pointee front back filled solid
  rw [whole, joins.joined]
  split
  · rw [List.nil_append, ← unwords_append_glued, List.append_assoc]
    rfl
  · have more : others ++ [last ++ ['*']] ≠ [] := by simp
    rw [List.append_cons, unwords_append_singleton more]
    rfl

/-- Words are a type and a name when a star or a blank stands between them. -/
theorem isTyped_starred (pointee : IsPointee type)
    (front : ∀ letter ∈ before, isWhite letter = true)
    (back : ∀ letter ∈ after, isWhite letter = true) (identifier : isIdentifier name = true) :
    IsTyped (unwords (words (starred type before after name))) (unwords (starredWords type before))
      name := by
  have filled := ne_nil_of_isIdentifier identifier
  have solid : ∀ letter ∈ name, isWhite letter = false := fun letter member =>
    (unrestricted_of_isIdentifier identifier letter member).1
  have spaced : SingleSpaced (unwords (starredWords type before)) :=
    SingleSpaced.of_words (starredWords_ne_nil type before)
  rw [unwords_words_starred pointee front back filled solid]
  split
  · obtain ⟨others, last, joins, _⟩ := exists_words_starred pointee front back filled solid
    rw [joins.joined, unwords_append_glued] at spaced ⊢
    refine ⟨⟨unwords (others ++ [last]), '*', ?_, by decide, spaced.trim_eq.symm⟩, by simp,
      identifier⟩
    rw [List.append_assoc]
    rfl
  · exact .append_space spaced identifier

/-- A statement with a star loses nothing but spacing when it has no annotation behind the star. -/
theorem withoutSpecifiers_starred (pointee : IsPointee type)
    (front : ∀ letter ∈ before, isWhite letter = true)
    (back : ∀ letter ∈ after, isWhite letter = true) (filled : declared ≠ [])
    (solid : ∀ letter ∈ declared, isWhite letter = false) (unspecified : declared ∉ specifiers)
    (unannotated : ¬annotationMark <:+: declared) :
    withoutSpecifiers (starred type before after declared) =
      unwords (words (starred type before after declared)) := by
  have star : (isWhite '*' = false ∧ '*' ∉ annotationMark) ∧ ∀ word ∈ specifiers, '*' ∉ word := by
    decide
  have parts : starred type before after declared =
      (type ++ before) ++ '*' :: (after ++ declared) := (List.append_assoc ..).symm
  have unmarked : ¬annotationMark <:+: starred type before after declared := by
    intro found
    rw [parts] at found
    rcases infix_append_cons_of_not_mem (type ++ before) star.1.2 found with inside | behind
    · have member : '(' ∈ type ++ before := inside.subset (by decide)
      rcases List.mem_append.1 member with member | member
      · exact pointee.flat '(' (by simp) member
      · exact absurd (front '(' member) (by decide)
    · exact unannotated (infix_of_infix_white_append (by decide) back behind)
  have each : ∀ word ∈ words (starred type before after declared), word ∉ specifiers := by
    intro word member
    rw [parts] at member
    rcases mem_words_append_cons star.1.1 member with member | member | member
    · rw [words_append_white_run front] at member
      exact (pointee.unspecified word member).1
    · rw [words_white_append back, words_of_solid filled solid, List.mem_singleton] at member
      rwa [member]
    · exact fun specifier => star.2 word specifier member
  have all : (words (starred type before after declared)).filter
      (fun word => !specifiers.contains word) = words (starred type before after declared) := by
    rw [List.filter_eq_self]
    intro word member
    simpa using each word member
  rw [withoutSpecifiers, dropAnnotations_of_none (breakOn?_eq_none unmarked), all]

/-- A statement with a star defines only a type when the star leaves a tag and one word. -/
theorem definesType_starred (pointee : IsPointee type)
    (front : ∀ letter ∈ before, isWhite letter = true)
    (back : ∀ letter ∈ after, isWhite letter = true) (filled : declared ≠ [])
    (solid : ∀ letter ∈ declared, isWhite letter = false) :
    definesType (unwords (words (starred type before after declared))) = true ↔
      IsHidden type before after := by
  obtain ⟨others, last, joins, whole⟩ := exists_words_starred pointee front back filled solid
  have starless : ∀ word ∈ "typedef".toList :: tags, '*' ∉ word := by decide
  -- The first word is one of the type's or it holds the star.
  have defined (rest : List Text) :
      words (starred type before after declared) ≠ "typedef".toList :: rest := by
    intro same
    rw [whole] at same
    cases others with
    | nil =>
        have starry : '*' ∈ "typedef".toList := by
          split at same <;> rw [← (List.cons.inj same).1] <;> simp
        exact starless _ (List.mem_cons_self ..) starry
    | cons first others =>
        exact (pointee.unspecified first (joins.mem (List.mem_cons_self ..))).2
          (List.cons.inj same).1
  have tagged (tag : Text) (listed : tag ∈ tags) :
      (∃ word, words (starred type before after declared) = [tag, word]) ↔
        after = [] ∧ others = [tag] := by
    rw [whole]
    by_cases attached : after = []
    · simp only [attached, if_true, true_and]
      constructor
      · rintro ⟨word, same⟩
        exact (List.append_inj' (same.trans (List.append_cons [] tag [word])) rfl).1
      · intro same
        exact ⟨_, by rw [same]; rfl⟩
    · simp only [attached, if_false, false_and, iff_false]
      rintro ⟨word, same⟩
      obtain ⟨rfl, pair⟩ := List.append_inj' (same.trans (List.nil_append _).symm) rfl
      refine starless tag (List.mem_cons_of_mem _ listed) ?_
      rw [← (List.cons.inj pair).1]
      simp
  rw [definesType_eq_true_iff, words_unwords_words]
  constructor
  · rintro (none | ⟨rest, same⟩ | ⟨tag, listed, pair⟩)
    · exact absurd none (words_starred_ne_nil type before after declared)
    · exact absurd same (defined rest)
    · obtain ⟨attached, single⟩ := (tagged tag listed).1 pair
      exact ⟨attached, tag, listed, (joins.eq_singleton_iff tag).1 single⟩
  · rintro ⟨attached, tag, listed, short⟩
    have single := (joins.eq_singleton_iff tag).2 short
    exact .inr (.inr ⟨tag, listed, (tagged tag listed).2 ⟨attached, single⟩⟩)

theorem not_mem_starred (front : ∀ letter ∈ before, isWhite letter = true)
    (back : ∀ letter ∈ after, isWhite letter = true) {letter : Char}
    (solid : isWhite letter = false)
    (other : letter ≠ '*') (first : letter ∉ type) (second : letter ∉ declared) :
    letter ∉ unwords (words (starred type before after declared)) := by
  have absent {run : Text} (white : ∀ letter ∈ run, isWhite letter = true) : letter ∉ run := by
    intro member
    rw [white letter member] at solid
    contradiction
  intro member
  rcases mem_unwords member with rfl | ⟨word, listed, member⟩
  · exact absurd solid (by decide)
  · have inside := mem_of_mem_splitOnP (mem_words.1 listed).1 letter member
    simp [starred, first, second, other, absent front, absent back] at inside

theorem isIgnored_starred (pointee : IsPointee type)
    (front : ∀ letter ∈ before, isWhite letter = true)
    (back : ∀ letter ∈ after, isWhite letter = true) (filled : declared ≠ [])
    (solid : ∀ letter ∈ declared, isWhite letter = false) (plain : IsPlain declared) :
    isIgnored (unwords (words (starred type before after declared))) = true ↔
      IsHidden type before after := by
  have body : '\x7b' ∉ unwords (words (starred type before after declared)) :=
    not_mem_starred front back (by decide) (by decide)
      (fun member => (pointee.plain _ member).1 (by decide))
      (fun member => (plain _ member).1 (by decide))
  rw [isIgnored, Bool.or_eq_true, definesType_starred pointee front back filled solid,
    List.contains_iff_mem]
  exact or_iff_right body

theorem declares_starred_data (pointee : IsPointee type)
    (front : ∀ letter ∈ before, isWhite letter = true)
    (back : ∀ letter ∈ after, isWhite letter = true) (identifier : isIdentifier name = true) :
    Declares (unwords (words (starred type before after name)))
      ⟨name, unwords (starredWords type before), .data, .cdecl, [], false⟩ := by
  have absent {letter : Char} (solid : isWhite letter = false) (other : letter ≠ '*')
      (listed : letter ∈ ['(', '[', '<']) (foreign : isIdentifierLetter letter = false) :
      letter ∉ unwords (words (starred type before after name)) :=
    not_mem_starred front back solid other (pointee.flat letter listed)
      (not_mem_of_isIdentifier identifier foreign)
  have typed := isTyped_starred pointee front back identifier
  have spaced := SingleSpaced.of_words (words_starred_ne_nil type before after name)
  rw [← spaced.trim_eq] at typed
  exact .data (absent (by decide) (by decide) (by decide) (by decide)) (List.append_nil _).symm
    (absent (by decide) (by decide) (by decide) (by decide)) (by simp) typed

theorem routineWords_starred (front : ∀ letter ∈ before, isWhite letter = true)
    (back : ∀ letter ∈ after, isWhite letter = true) (identifier : isIdentifier name = true) :
    routineWords (unwords (words (starred type before after name))) =
      (routineWords type ++ [['*']]) ++ [name] := by
  have apart : starred type before after name = (type ++ before) ++ '*' :: (after ++ name) :=
    (List.append_assoc ..).symm
  have first : routineWords (type ++ before) = routineWords type := by
    rw [routineWords_eq_flatMap, words_append_white_run front, ← routineWords_eq_flatMap]
  have second : routineWords (after ++ name) = [name] := by
    rw [routineWords_eq_flatMap, words_white_append back, ← routineWords_eq_flatMap]
    exact (words_of_isIdentifier identifier).2
  rw [routineWords_eq_flatMap, words_unwords_words, ← routineWords_eq_flatMap, apart,
    routineWords_append_star, first, second, List.append_assoc]
  rfl

theorem declares_starred_routine (pointee : IsPointee type)
    (front : ∀ letter ∈ before, isWhite letter = true)
    (back : ∀ letter ∈ after, isWhite letter = true) (isName : IsName name) :
    Declares (unwords (words (starred type before after (name ++ ['(', ')']))))
      ⟨name, unwords (routineWords type ++ [['*']]), .routine, .cdecl, [], false⟩ := by
  have identifier := isName.identifier
  have solid : ∀ letter ∈ name, isWhite letter = false := fun letter member =>
    (unrestricted_of_isIdentifier identifier letter member).1
  have called : ∀ letter ∈ name ++ ['(', ')'], isWhite letter = false :=
    List.forall_mem_append.2 ⟨solid, by decide⟩
  have absent {letter : Char} (solid : isWhite letter = false) (other : letter ≠ '*')
      (listed : letter ∈ ['(', '[', '<']) (foreign : isIdentifierLetter letter = false) :
      letter ∉ unwords (words (starred type before after name)) :=
    not_mem_starred front back solid other (pointee.flat letter listed)
      (not_mem_of_isIdentifier identifier foreign)
  have head := unwords_words_starred pointee front back (ne_nil_of_isIdentifier identifier) solid
  have parts : unwords (words (starred type before after (name ++ ['(', ')']))) =
      unwords (words (starred type before after name)) ++ '(' :: ([] ++ ')' :: []) := by
    rw [unwords_words_starred pointee front back (by simp) called, head]
    simp
  have spaced := SingleSpaced.of_words (words_starred_ne_nil type before after name)
  have unmarked : ¬['@', '<'] <:+: unwords (words (starred type before after name)) := fun found =>
    absent (by decide) (by decide) (show '<' ∈ _ by simp) (by decide) (found.subset (by simp))
  have marked : UpToMark (trim (unwords (words (starred type before after name))))
      (unwords (words (starred type before after name))) := by
    rw [spaced.trim_eq]
    exact .whole unmarked
  have silent : ∀ word ∈ routineWords type ++ [['*']], Convention.ofKeyword? word = none :=
    List.forall_mem_append.2 ⟨pointee.silent, by decide⟩
  exact .of_routineWords parts (absent (by decide) (by decide) (by decide) (by decide)) (by decide)
    (by decide) marked (routineWords_starred front back identifier) (by simp) silent .silent
    identifier isName.other rfl

theorem IsPlain.of_isIdentifier (identifier : isIdentifier name = true) : IsPlain name := by
  intro letter member
  refine ⟨(unrestricted_of_isIdentifier identifier letter member).2, ?_⟩
  rintro rfl
  exact not_mem_of_isIdentifier identifier (by decide) member

/-- What the words of a statement with a star declare is added unless the statement is hidden. -/
theorem Database.ofText_starred_declared (read : Text → Option (List UInt8)) (file : Text)
    (pointee : IsPointee type) (front : ∀ letter ∈ before, isWhite letter = true)
    (back : ∀ letter ∈ after, isWhite letter = true) (filled : declared ≠ [])
    (solid : ∀ letter ∈ declared, isWhite letter = false) (plain : IsPlain declared)
    (unspecified : declared ∉ specifiers) (unannotated : ¬annotationMark <:+: declared)
    {prototype : Prototype}
    (declares : Declares (unwords (words (starred type before after declared))) prototype) :
    (IsHidden type before after →
      Database.ofText read file (starred type before after declared ++ [';']) =
        .ok Database.empty) ∧
    (¬IsHidden type before after →
      Database.ofText read file (starred type before after declared ++ [';']) =
        .ok (Database.empty.insert prototype)) := by
  have whole := isPlain_starred pointee front back plain
  have kept := withoutSpecifiers_starred pointee front back filled solid unspecified unannotated
  have ignored := isIgnored_starred pointee front back filled solid plain
  constructor
  · intro hidden
    refine Database.ofText_ignored whole ?_ read file
    rw [kept]
    exact prototype?_eq_none_iff.2 (ignored.2 hidden)
  · intro shown
    refine Database.ofText_statement whole ?_ read file
    rw [kept]
    have more := Bool.eq_false_iff.2 fun found => shown (ignored.1 found)
    exact prototype?_eq_some_iff.2 ⟨more, declares⟩

/-- A star between a type and a name declares the name as data, and as a routine when parentheses
follow, whatever the white space on either side of the star is. Nothing is declared when the star is
attached to the name and only one word stands behind a tag. -/
theorem Database.ofText_starred (read : Text → Option (List UInt8)) (file : Text)
    (pointee : IsPointee type) (isName : IsName name)
    (unannotated : ¬annotationMark <:+: name ++ ['(', ')'])
    (front : ∀ letter ∈ before, isWhite letter = true)
    (back : ∀ letter ∈ after, isWhite letter = true) :
    (IsHidden type before after →
      Database.ofText read file (starred type before after name ++ [';']) = .ok Database.empty ∧
      Database.ofText read file (starred type before after (name ++ ['(', ')']) ++ [';']) =
        .ok Database.empty) ∧
    (¬IsHidden type before after →
      Database.ofText read file (starred type before after name ++ [';']) =
        .ok (Database.empty.insert
          ⟨name, unwords (starredWords type before), .data, .cdecl, [], false⟩) ∧
      Database.ofText read file (starred type before after (name ++ ['(', ')']) ++ [';']) =
        .ok (Database.empty.insert
          ⟨name, unwords (routineWords type ++ [['*']]), .routine, .cdecl, [], false⟩)) := by
  have identifier := isName.identifier
  have filled := ne_nil_of_isIdentifier identifier
  have solid : ∀ letter ∈ name, isWhite letter = false := fun letter member =>
    (unrestricted_of_isIdentifier identifier letter member).1
  have plain := IsPlain.of_isIdentifier identifier
  have data := Database.ofText_starred_declared read file pointee front back filled solid plain
    isName.unspecified (fun found => unannotated (found.trans (List.prefix_append ..).isInfix))
    (declares_starred_data pointee front back identifier)
  have called : name ++ ['(', ')'] ∉ specifiers := by
    have foreign : ∀ word ∈ specifiers, '(' ∉ word := by decide
    exact fun specifier => foreign _ specifier (by simp)
  have routine := Database.ofText_starred_declared read file pointee front back (by simp)
    (List.forall_mem_append.2 ⟨solid, by decide⟩)
    (plain.append (List.forall_mem_cons.2 ⟨by decide, List.forall_mem_cons.2 ⟨by decide, by simp⟩⟩))
    called unannotated (declares_starred_routine pointee front back isName)
  exact ⟨fun hidden => ⟨data.1 hidden, routine.1 hidden⟩,
    fun shown => ⟨data.2 shown, routine.2 shown⟩⟩

end

/-- A pointer to a structure is declared when the star stands behind a space. -/
theorem Database.ofText_starred_item :
    Database.ofText (fun _ => none) [] "struct item *p;".toList =
        .ok (Database.empty.insert ⟨['p'], "struct item *".toList, .data, .cdecl, [], false⟩) ∧
      Database.ofText (fun _ => none) [] "struct item *p();".toList =
        .ok (Database.empty.insert
          ⟨['p'], "struct item *".toList, .routine, .cdecl, [], false⟩) := by
  have pointee : IsPointee "struct item".toList :=
    ⟨by decide, by decide +kernel, by unfold IsPlain; decide, by decide, by decide, by decide⟩
  have isName : IsName ['p'] := ⟨by decide, by decide, by decide⟩
  have hidden : ¬IsHidden "struct item".toList [' '] [] := by
    rintro ⟨_, tag, _, short⟩
    have more : (words "struct item".toList).length ≠ 1 := by decide
    rw [if_neg (by simp)] at short
    exact more (congrArg List.length short)
  have unannotated : ¬annotationMark <:+: ['p'] ++ ['(', ')'] := fun found =>
    absurd (found.subset (show '_' ∈ _ by decide)) (by decide)
  exact (Database.ofText_starred (fun _ => none) [] pointee isName unannotated (by decide)
    (by simp)).2 hidden

/-- The same pointer is lost when the star is attached on both sides. -/
theorem Database.ofText_starred_attached :
    ∃ spaced,
      Database.ofText (fun _ => none) [] "struct item *p;".toList = .ok spaced ∧
      (spaced.lookup? ['p']).isSome = true ∧
      Database.ofText (fun _ => none) [] "struct item*p;".toList = .ok Database.empty ∧
      Database.ofText (fun _ => none) [] "struct item*p();".toList = .ok Database.empty := by
  have spaced : events "struct item *p;".toList = [.statement 1 "struct item *p".toList] := by
    decide +kernel
  have declared : prototype? (withoutSpecifiers "struct item *p".toList) =
      .ok (some ⟨['p'], "struct item *".toList, .data, .cdecl, [], false⟩) := by decide +kernel
  have data : events "struct item*p;".toList = [.statement 1 "struct item*p".toList] := by
    decide +kernel
  have routine : events "struct item*p();".toList = [.statement 1 "struct item*p()".toList] := by
    decide +kernel
  have ignored : prototype? (withoutSpecifiers "struct item*p".toList) = .ok none ∧
      prototype? (withoutSpecifiers "struct item*p()".toList) = .ok none := by decide +kernel
  refine ⟨Database.empty.insert ⟨['p'], "struct item *".toList, .data, .cdecl, [], false⟩,
    ?_, by decide +kernel, ?_, ?_⟩
  · rw [Database.ofText, Database.readText_eq, spaced, List.foldlM_cons, Database.declare,
      declared]
    rfl
  · rw [Database.ofText, Database.readText_eq, data, List.foldlM_cons, Database.declare,
      ignored.1]
    rfl
  · rw [Database.ofText, Database.readText_eq, routine, List.foldlM_cons, Database.declare,
      ignored.2]
    rfl

end DataSegment.Header
