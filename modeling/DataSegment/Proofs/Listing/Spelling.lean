import DataSegment.Proofs.Conversion.Strings
import DataSegment.Proofs.Listing.Line

namespace DataSegment.Listing

/-- Outside of its quotes a text has no blank and no comma. -/
def Unbroken (text : Text) : Prop :=
  ∀ before letter after, text = before ++ letter :: after → before.count '\'' % 2 = 0 →
    endsWord letter = false

/-- Blanks with at most one comma, and not without both. -/
structure IsSeparator (gap : Text) : Prop where
  filled : gap ≠ []
  ends : ∀ letter ∈ gap, endsWord letter = true
  single : gap.count ',' ≤ 1

/-- A text from its first word on: words without a blank or a comma outside of their quotes, a
separator behind each of them but perhaps the last, and a comment behind the last separator. A word
can be empty only before a comma. -/
inductive Spells : List Text → Text → Prop where
  | nil : Spells [] []
  | comment (remark : Text) : Spells [] (';' :: remark)
  | last {source : Text} (filled : source ≠ []) (unbroken : Unbroken source) :
      Spells [source] source
  | word {source gap rest : Text} {others : List Text} (unbroken : Unbroken source)
      (empty : source = [] → gap.head? = some ',') (separator : IsSeparator gap)
      (later : Spells others rest) : Spells (source :: others) (source ++ (gap ++ rest))

/-- Whether a quote is open follows from the number of quotes. -/
theorem count_insideAfter (inside : Bool) (letter : Char) (before : Text) :
    (before.count '\'' + (insideAfter inside letter).toNat) % 2 =
      ((letter :: before).count '\'' + inside.toNat) % 2 := by
  by_cases quote : letter = '\''
  · rw [quote, List.count_cons_self]
    cases inside
    · simp [insideAfter]
    · simp [insideAfter]
      omega
  · rw [List.count_cons_of_ne quote]
    simp [insideAfter, quote]

/-- The scanner stops at the first blank or comma outside of quotes. -/
theorem endsWord_of_spanWord {inside : Bool} {line before after : Text} {letter : Char}
    (same : (spanWord true inside line).1 = before ++ letter :: after)
    (outside : (before.count '\'' + inside.toNat) % 2 = 0) : endsWord letter = false := by
  induction line generalizing inside before with
  | nil => simp [spanWord] at same
  | cons first line inductionHypothesis =>
      rw [spanWord_cons] at same
      split at same
      · simp at same
      · rename_i goes
        cases before with
        | nil =>
            obtain ⟨rfl, _⟩ := List.cons.inj same
            by_cases quote : first = '\''
            · rw [quote]
              decide
            · cases inside with
              | true => simp at outside
              | false => simpa [insideAfter, quote] using goes
        | cons other before =>
            obtain ⟨rfl, later⟩ := List.cons.inj same
            apply inductionHypothesis later
            rw [count_insideAfter, outside]

theorem unbroken_spanWord (line : Text) : Unbroken (spanWord true false line).1 :=
  fun _ _ _ same outside => endsWord_of_spanWord same (by simpa using outside)

/-- The scanner takes a text whole that has no blank and no comma outside of quotes. -/
theorem spanWord_of_unbroken {inside : Bool} {text : Text}
    (unbroken : ∀ before letter after, text = before ++ letter :: after →
      (before.count '\'' + inside.toNat) % 2 = 0 → endsWord letter = false) :
    spanWord true inside text = (text, []) := by
  induction text generalizing inside with
  | nil => rfl
  | cons letter text inductionHypothesis =>
      have later : spanWord true (insideAfter inside letter) text = (text, []) := by
        apply inductionHypothesis
        intro before other after same outside
        apply unbroken (letter :: before) other after (by rw [same, List.cons_append])
        rw [← count_insideAfter, outside]
      rw [spanWord_cons, later, if_neg]
      rw [Bool.and_eq_true, not_and, Bool.not_eq_true, Bool.not_eq_true']
      intro closed
      by_cases quote : letter = '\''
      · rw [quote]
        decide
      · have outside : inside = false := by simpa [insideAfter, quote] using closed
        exact unbroken [] letter text rfl (by simp [outside])

theorem unbroken_iff {text : Text} : Unbroken text ↔ spanWord true false text = (text, []) := by
  constructor
  · intro unbroken
    apply spanWord_of_unbroken
    intro before letter after same outside
    exact unbroken before letter after same (by simpa using outside)
  · intro whole
    have unbroken := unbroken_spanWord text
    rw [whole] at unbroken
    exact unbroken

instance (text : Text) : Decidable (Unbroken text) := decidable_of_iff _ unbroken_iff.symm

theorem Unbroken.written {word : Text} (unbroken : Unbroken word) (filled : word ≠ [])
    (paired : word.count '\'' % 2 = 0) (code : word.head? ≠ some ';') : Written word where
  filled := filled
  solid := unbroken_iff.1 unbroken
  paired := paired
  code := code

/-- Where a word ends before its line does, a blank or a comma follows. -/
theorem endsWord_behind {quoted inside : Bool} {line : Text} {letter : Char}
    (first : (spanWord quoted inside line).2.head? = some letter) : endsWord letter = true := by
  induction line generalizing inside with
  | nil => simp [spanWord] at first
  | cons other line inductionHypothesis =>
      unfold spanWord at first
      dsimp only at first
      generalize (if quoted && other == '\'' then !inside else inside) = next at first
      split at first
      · rename_i stops
        obtain rfl : other = letter := by simpa using first
        rw [Bool.and_eq_true] at stops
        exact stops.2
      · exact inductionHypothesis first

theorem head?_dropBlanks {line : Text} {letter : Char}
    (first : (dropBlanks line).head? = some letter) : isBlank letter = false := by
  have found := List.head?_dropWhile_not isBlank line
  rw [show line.dropWhile isBlank = dropBlanks line from rfl, first] at found
  simpa using found

theorem takeBlanks_append (line : Text) : line.takeWhile isBlank ++ dropBlanks line = line :=
  List.takeWhile_append_dropWhile

theorem isBlank_of_mem_takeBlanks {line : Text} {letter : Char}
    (member : letter ∈ line.takeWhile isBlank) : isBlank letter = true :=
  List.all_eq_true.1 List.all_takeWhile letter member

theorem endsWord_of_isBlank {letter : Char} (blank : isBlank letter = true) :
    endsWord letter = true := by
  rw [endsWord, blank, Bool.true_or]

theorem count_comma_of_isBlank {blanks : Text} (blank : ∀ letter ∈ blanks, isBlank letter = true) :
    blanks.count ',' = 0 := by
  apply List.count_eq_zero_of_not_mem
  intro member
  have never := blank ',' member
  contradiction

/-- A blank or a comma that is no blank is a comma. -/
theorem eq_comma_of_endsWord {letter : Char} (ends : endsWord letter = true)
    (solid : isBlank letter = false) : letter = ',' := by
  rw [endsWord, solid, Bool.false_or, beq_iff_eq] at ends
  exact ends

/-- What is dropped between a word and the next: blanks, and a comma if one follows them. -/
def separatorOf (after : Text) : Text :=
  after.takeWhile isBlank ++ if (dropBlanks after).head? = some ',' then [','] else []

theorem separatorOf_append (after : Text) : separatorOf after ++ dropSeparator after = after := by
  have parts := takeBlanks_append after
  rw [separatorOf, dropSeparator]
  cases found : dropBlanks after with
  | nil => simpa [found] using parts
  | cons letter rest =>
      rw [found] at parts
      by_cases comma : letter = ','
      · simpa [comma] using parts
      · simpa [comma] using parts

/-- The separator starts where the word ends. -/
theorem head?_separatorOf {after : Text}
    (ends : ∀ letter, after.head? = some letter → endsWord letter = true) :
    (separatorOf after).head? = after.head? := by
  cases after with
  | nil => rfl
  | cons letter rest =>
      cases blank : isBlank letter with
      | true => simp [separatorOf, blank]
      | false =>
          have comma := eq_comma_of_endsWord (ends letter rfl) blank
          simp [separatorOf, dropBlanks, comma, isBlank]

theorem isSeparator_separatorOf {after : Text} (filled : after ≠ [])
    (ends : ∀ letter, after.head? = some letter → endsWord letter = true) :
    IsSeparator (separatorOf after) where
  filled := by
    intro empty
    have head := head?_separatorOf ends
    rw [empty] at head
    exact filled (List.head?_eq_none_iff.1 head.symm)
  ends := by
    intro letter member
    rcases List.mem_append.1 member with member | member
    · exact endsWord_of_isBlank (isBlank_of_mem_takeBlanks member)
    · split at member
      · rw [List.mem_singleton.1 member]
        decide
      · contradiction
  single := by
    rw [separatorOf, List.count_append,
      count_comma_of_isBlank fun letter member => isBlank_of_mem_takeBlanks member]
    split <;> decide

theorem IsSeparator.append_blanks {gap lead : Text} (separator : IsSeparator gap)
    (blank : ∀ letter ∈ lead, isBlank letter = true) : IsSeparator (gap ++ lead) where
  filled := by simp [separator.filled]
  ends := by
    intro letter member
    rcases List.mem_append.1 member with member | member
    · exact separator.ends letter member
    · exact endsWord_of_isBlank (blank letter member)
  single := by
    rw [List.count_append, count_comma_of_isBlank blank]
    exact separator.single

/-- The words of a line with their separators, and the blanks before the first of them, are the
whole line. -/
theorem spells_words (line : Text) :
    ∃ lead rest, line = lead ++ rest ∧ (∀ letter ∈ lead, isBlank letter = true) ∧
      Spells ((words line).map Word.source) rest := by
  induction line using words.induct with
  | case1 line none =>
      refine ⟨line.takeWhile isBlank, dropBlanks line, (takeBlanks_append line).symm,
        fun letter member => isBlank_of_mem_takeBlanks member, ?_⟩
      rw [words, if_pos none, List.map_nil]
      unfold hasNoWord at none
      split at none
      · rename_i empty
        rw [empty]
        exact .nil
      · rename_i letter rest found
        rw [found, beq_iff_eq.1 none]
        exact .comment rest
  | case2 line more inductionHypothesis =>
      obtain ⟨lead, rest, same, blank, later⟩ := inductionHypothesis
      have parts := spanWord_append true false (dropBlanks line)
      have unbroken := unbroken_spanWord (dropBlanks line)
      rw [words, if_neg more, List.map_cons]
      refine ⟨line.takeWhile isBlank, dropBlanks line, (takeBlanks_append line).symm,
        fun letter member => isBlank_of_mem_takeBlanks member, ?_⟩
      rw [firstWord] at same later ⊢
      dsimp only at same later ⊢
      have ends : ∀ letter, (spanWord true false (dropBlanks line)).2.head? = some letter →
          endsWord letter = true := fun letter first => endsWord_behind first
      generalize (spanWord true false (dropBlanks line)).1 = source at *
      generalize (spanWord true false (dropBlanks line)).2 = after at *
      have start : dropBlanks line ≠ [] := dropBlanks_ne_nil (by simpa using more)
      by_cases whole : after = []
      · -- The word takes the rest of the line.
        have filled : source ≠ [] := by
          rintro rfl
          exact start (by rw [← parts, whole, List.nil_append])
        rw [whole, List.append_nil] at parts
        have none : words (dropSeparator after) = [] := by simp [whole, dropSeparator, dropBlanks]
        rw [none, ← parts]
        exact .last filled unbroken
      · have cut := separatorOf_append after
        have separator := isSeparator_separatorOf whole ends
        have empty : source = [] → (separatorOf after ++ lead).head? = some ',' := by
          rintro rfl
          rw [List.nil_append] at parts
          obtain ⟨letter, others, found⟩ := List.exists_cons_of_ne_nil whole
          have first : after.head? = some letter := by rw [found, List.head?_cons]
          have comma := eq_comma_of_endsWord (ends letter first) (head?_dropBlanks (parts ▸ first))
          rw [List.head?_append, head?_separatorOf ends, first, comma, Option.some_or]
        have joined : dropBlanks line = source ++ ((separatorOf after ++ lead) ++ rest) := by
          rw [← parts, List.append_assoc, ← same, cut]
        rw [joined]
        exact .word unbroken empty (separator.append_blanks blank) later

/-- Where each word has a letter, the first letter of a text belongs to a word or starts the
comment. -/
theorem head?_of_spells {parts : List Text} {text : Text} (spelled : Spells parts text)
    (filled : [] ∉ parts) {letter : Char} (first : text.head? = some letter) :
    endsWord letter = false := by
  have starts {source rest : Text} (unbroken : Unbroken source) (lettered : source ≠ [])
      (first : (source ++ rest).head? = some letter) : endsWord letter = false := by
    obtain ⟨head, tail, rfl⟩ := List.exists_cons_of_ne_nil lettered
    obtain rfl : head = letter := by simpa using first
    exact unbroken [] head tail rfl rfl
  cases spelled with
  | nil => contradiction
  | comment remark =>
      obtain rfl : ';' = letter := by simpa using first
      decide
  | last lettered unbroken =>
      rw [← List.append_nil text] at first
      exact starts unbroken lettered first
  | word unbroken =>
      refine starts unbroken (fun empty => filled ?_) first
      rw [empty]
      exact List.mem_cons_self ..

/-- A separator is dropped up to its comma, or to its end when it has none. -/
theorem exists_dropSeparator {gap rest : Text} (separator : IsSeparator gap)
    (starts : ∀ letter, rest.head? = some letter → endsWord letter = false) :
    ∃ lead, (∀ letter ∈ lead, isBlank letter = true) ∧
      dropSeparator (gap ++ rest) = lead ++ rest := by
  have blank {part : Text} (known : part ⊆ gap) (plain : ',' ∉ part) :
      ∀ letter ∈ part, isBlank letter = true := by
    intro letter member
    have ends := separator.ends letter (known member)
    cases solid : isBlank letter with
    | true => rfl
    | false => exact absurd (eq_comma_of_endsWord ends solid ▸ member) plain
  by_cases comma : ',' ∈ gap
  · obtain ⟨before, after, rfl, plain⟩ := List.eq_append_cons_of_mem comma
    have single := separator.single
    rw [List.count_append, List.count_cons_self, List.count_eq_zero_of_not_mem plain] at single
    have plainToo : ',' ∉ after := List.count_eq_zero.1 (by omega)
    refine ⟨after, blank (by simp) plainToo, ?_⟩
    rw [List.append_assoc, List.cons_append]
    exact dropSeparator_comma (blank (by simp) plain) (after ++ rest)
  · refine ⟨[], by simp, ?_⟩
    have solid : ∀ letter, rest.head? = some letter → isBlank letter = false := by
      intro letter first
      have goes := starts letter first
      rw [endsWord, Bool.or_eq_false_iff] at goes
      exact goes.1
    rw [dropSeparator, dropBlanks_append (blank (List.Subset.refl _) comma) rest solid]
    cases rest with
    | nil => rfl
    | cons letter rest =>
        have goes := starts letter rfl
        rw [endsWord, Bool.or_eq_false_iff] at goes
        dsimp only
        rw [goes.2]
        rfl

/-- Words that have letters and paired quotes and start no comment come back as they were
written. -/
theorem words_of_spells {lead text : Text} {parts : List Text}
    (blank : ∀ letter ∈ lead, isBlank letter = true) (spelled : Spells parts text)
    (filled : [] ∉ parts)
    (plain : ∀ part ∈ parts, part.count '\'' % 2 = 0 ∧ part.head? ≠ some ';') :
    words (lead ++ text) = parts.map Word.mk := by
  induction spelled generalizing lead with
  | nil =>
      have none : hasNoWord (lead ++ []) = true := by
        rw [hasNoWord, dropBlanks_append blank [] (by simp)]
      rw [words, if_pos none, List.map_nil]
  | comment remark =>
      have none : hasNoWord (lead ++ ';' :: remark) = true := by
        rw [hasNoWord, dropBlanks_append blank (';' :: remark) (by simp [isBlank])]
        rfl
      rw [words, if_pos none, List.map_nil]
  | @last source lettered unbroken =>
      obtain ⟨paired, code⟩ := plain source (List.mem_cons_self ..)
      have alone := words_append blank (unbroken.written lettered paired code) [] (by simp)
      simpa [dropSeparator, dropBlanks] using alone
  | @word source gap rest others unbroken _ separator later inductionHypothesis =>
      obtain ⟨paired, code⟩ := plain source (List.mem_cons_self ..)
      have lettered : source ≠ [] := fun empty => filled (empty ▸ List.mem_cons_self ..)
      have filledToo : [] ∉ others := fun empty => filled (List.mem_cons_of_mem _ empty)
      have ends : ∀ letter, (gap ++ rest).head? = some letter → endsWord letter = true := by
        intro letter first
        obtain ⟨head, tail, rfl⟩ := List.exists_cons_of_ne_nil separator.filled
        obtain rfl : head = letter := by simpa using first
        exact separator.ends head (List.mem_cons_self ..)
      obtain ⟨next, blankToo, dropped⟩ := exists_dropSeparator separator fun letter first =>
        head?_of_spells later filledToo first
      rw [words_append blank (unbroken.written lettered paired code) _ ends, dropped, List.map_cons,
        inductionHypothesis blankToo filledToo fun part member =>
          plain part (List.mem_cons_of_mem _ member)]

/-- Plain words that are not too long come back whole and without a remark, whatever separates
them, and whatever blanks stand before them or comment behind them. -/
theorem keptWords_spelled {lead text : Text} {parts : List Text}
    (blank : ∀ letter ∈ lead, isBlank letter = true) (spelled : Spells parts text)
    (plain : ∀ part ∈ parts, part ≠ [] ∧ part.length ≤ Word.limit ∧
      part.count '\'' % 2 = 0 ∧ part.head? ≠ some ';') :
    keptWords (lead ++ text) = parts ∧
      Environment.truncationRemarks (words (lead ++ text)) = [] := by
  have filled : [] ∉ parts := fun empty => (plain [] empty).1 rfl
  have short : ∀ part ∈ parts, part.length ≤ Word.limit := fun part member => (plain part member).2.1
  have found := words_of_spells blank spelled filled fun part member => (plain part member).2.2
  rw [keptWords, found]
  exact ⟨map_text_of_short short, Environment.truncationRemarks_of_short short⟩

/-- Literals with a blank, a comma and a semicolon, a comma among blanks, and a comment with an open
quote. -/
theorem keptWords_spelled_literal :
    keptWords "\t x db 'a, ;b''c' , 0Ah\t; it's".toList =
        ["x".toList, "db".toList, "'a, ;b''c'".toList, "0Ah".toList] ∧
      Environment.truncationRemarks (words "\t x db 'a, ;b''c' , 0Ah\t; it's".toList) = [] := by
  have comment : Spells [] "; it's".toList := .comment " it's".toList
  have number : Spells ["0Ah".toList] ("0Ah".toList ++ (['\t'] ++ "; it's".toList)) :=
    .word (by decide) (by decide) ⟨by decide, by decide, by decide⟩ comment
  have literal : Spells ["'a, ;b''c'".toList, "0Ah".toList]
      ("'a, ;b''c'".toList ++ (" , ".toList ++ "0Ah\t; it's".toList)) :=
    .word (by decide) (by decide) ⟨by decide, by decide, by decide⟩ number
  have directive : Spells ["db".toList, "'a, ;b''c'".toList, "0Ah".toList]
      ("db".toList ++ ([' '] ++ "'a, ;b''c' , 0Ah\t; it's".toList)) :=
    .word (by decide) (by decide) ⟨by decide, by decide, by decide⟩ literal
  have label : Spells ["x".toList, "db".toList, "'a, ;b''c'".toList, "0Ah".toList]
      ("x".toList ++ ([' '] ++ "db 'a, ;b''c' , 0Ah\t; it's".toList)) :=
    .word (by decide) (by decide) ⟨by decide, by decide, by decide⟩ directive
  have blank : ∀ letter ∈ "\t ".toList, isBlank letter = true := by decide
  exact keptWords_spelled blank label (by decide)

end DataSegment.Listing
