import DataSegment.Proofs.Conversion.Declarations
import DataSegment.Proofs.Listing.Spelling
import DataSegment.Proofs.Text.Words

namespace DataSegment

open Assembly Listing
open Text (unwords)

namespace Suppression

/-- A name that a line of a list can give. -/
structure IsName (name : Text) : Prop where
  filled : name ≠ []
  short : name.length ≤ Word.limit
  solid : ∀ letter ∈ name, endsWord letter = false
  code : name.head? ≠ some ';'

theorem solid_of_mem_spanWord {line : Text} {letter : Char}
    (member : letter ∈ (spanWord false false line).1) : endsWord letter = false := by
  induction line with
  | nil => simp [spanWord] at member
  | cons first line inductionHypothesis =>
      rw [spanWord_plain_cons] at member
      split at member
      · contradiction
      · rename_i goes
        rcases List.mem_cons.1 member with rfl | member
        · simpa using goes
        · exact inductionHypothesis member

theorem isName_of_lineName? {line name : Text} (found : lineName? line = some name) :
    IsName name := by
  unfold lineName? at found
  dsimp only at found
  split at found
  · contradiction
  · rename_i more
    rw [Bool.or_eq_true, not_or, Bool.not_eq_true, List.isEmpty_iff] at more
    obtain ⟨more, filled⟩ := more
    obtain rfl := Option.some.inj found
    refine ⟨filled, List.length_take_le .., ?_, ?_⟩
    · intro letter member
      exact solid_of_mem_spanWord (List.mem_of_mem_take member)
    · intro code
      have front : (firstWord false line).1.text <+: dropBlanks line :=
        (List.take_prefix ..).trans ⟨_, spanWord_append false false (dropBlanks line)⟩
      obtain ⟨rest, same⟩ := List.head?_eq_some_iff.1 code
      obtain ⟨tail, joined⟩ := front
      rw [hasNoWord, ← joined, same] at more
      contradiction

/-- The lists that can be read, from a text or from files. -/
inductive IsList : Suppression → Prop where
  | text (source : Text) : IsList (ofText source)
  | files {read : Text → Option (List UInt8)} {paths : List Text} {names : Suppression}
      (loaded : load read paths = .ok names) : IsList names

theorem isName_of_mem_namesOf {source name : Text} (member : name ∈ namesOf source) :
    IsName name := by
  obtain ⟨line, _, found⟩ := List.mem_filterMap.1 member
  exact isName_of_lineName? found

theorem isName_of_load {read : Text → Option (List UInt8)} {paths : List Text} {names : Suppression}
    (loaded : load read paths = .ok names) : ∀ name ∈ names, IsName name := by
  have none : ∀ name ∈ (∅ : Suppression), IsName name := by simp
  let named (names : Suppression) : Prop := ∀ name ∈ names, IsName name
  refine @Results.foldlM_invariant _ _ _ _ named ?_ paths ∅ names none loaded
  intro names path next each found name member
  split at found
  · contradiction
  · obtain rfl := Except.ok.inj found
    rcases Std.TreeSet.mem_insertMany_list.1 member with old | new
    · exact each name old
    · exact isName_of_mem_namesOf (by simpa using new)

theorem IsList.isName_of_mem {names : Suppression} (list : IsList names) {name : Text}
    (member : name ∈ names) : IsName name := by
  cases list with
  | text source => exact isName_of_mem_namesOf (mem_ofText.1 member)
  | files loaded => exact isName_of_load loaded name member

end Suppression

namespace Suppression.IsName

variable {name : Text}

theorem unbroken (isName : IsName name) : Unbroken name := by
  rintro before letter after rfl _
  exact isName.solid letter (by simp)

theorem words_eq (isName : IsName name) : words name = [⟨name⟩] := by
  obtain ⟨letter, rest, same⟩ := List.exists_cons_of_ne_nil isName.filled
  have solid : isBlank letter = false := by
    have goes := isName.solid letter (by simp [same])
    exact (Bool.or_eq_false_iff.1 goes).1
  have start : dropBlanks name = name := by
    rw [same, dropBlanks, List.dropWhile_cons_of_neg (by simp [solid])]
  have more : hasNoWord name = false := by
    have code := isName.code
    rw [same, List.head?_cons, Ne, Option.some.injEq] at code
    rw [hasNoWord, start, same]
    simpa using code
  have first : firstWord true name = (⟨name⟩, []) := by
    rw [firstWord, start, unbroken_iff.1 isName.unbroken]
  rw [words, if_neg (by simp [more]), first]
  simp [dropSeparator, dropBlanks]

/-- A name may end a line whatever its quotes are. -/
theorem words_unwords {parts : List Text} (isName : IsName name)
    (written : ∀ part ∈ parts, Written part) :
    words (unwords (parts ++ [name])) = (parts ++ [name]).map Word.mk := by
  induction parts with
  | nil => simpa [unwords, Text.join] using isName.words_eq
  | cons part parts inductionHypothesis =>
      have first := written part (List.mem_cons_self ..)
      have others : ∀ other ∈ parts, Written other := fun other member =>
        written other (List.mem_cons_of_mem _ member)
      have later := inductionHypothesis others
      -- The next word starts with a letter that does not end a word.
      obtain ⟨letter, word, rest, same, goes⟩ : ∃ letter word rest,
          parts ++ [name] = (letter :: word) :: rest ∧ endsWord letter = false := by
        cases parts with
        | nil =>
            obtain ⟨letter, word, same⟩ := List.exists_cons_of_ne_nil isName.filled
            exact ⟨letter, word, [], by rw [same]; rfl, isName.solid letter (by simp [same])⟩
        | cons next parts =>
            obtain ⟨letter, word, same, goes, _⟩ := (others next (List.mem_cons_self ..)).exists_cons
            exact ⟨letter, word, parts ++ [name], by rw [same]; rfl, goes⟩
      obtain ⟨after, start⟩ := exists_join_eq_append [' '] (letter :: word) rest
      have starts : ∀ other, (unwords (parts ++ [name])).head? = some other →
          endsWord other = false := by
        rw [same, unwords, start]
        exact fun other found => Option.some.inj found ▸ goes
      rw [List.cons_append, same, Text.unwords_cons_cons, ← same, words_append_start first starts,
        later]
      rfl

end Suppression.IsName

/-- The words make up a line, and every line that they make up becomes the data without a
remark. -/
structure Environment.Converts (environment : Environment) (parts : List Text) (data : Line) :
    Prop where
  spelled : words (unwords parts) = parts.map Word.mk
  read : ∀ line, words line = parts.map Word.mk →
    environment.readInside line = ⟨line, [], data.label, .ok (.inside, [.data data])⟩

/-- A name that looks like no number, no quoted text and no unset unit. -/
structure Listing.IsBare (name : Text) : Prop where
  letter : ∀ letter, name.head? = some letter → letter.isDigit = false ∧ letter ∉ ['-', '\'']
  set : name ≠ ['?']

namespace Listing

theorem IsBare.startsNumeric_eq {name : Text} (bare : IsBare name) :
    startsNumeric name = false := by
  cases name with
  | nil => rfl
  | cons letter rest =>
      obtain ⟨digit, other⟩ := bare.letter letter rfl
      unfold startsNumeric
      split
      · rename_i same
        obtain ⟨rfl, _⟩ := List.cons.inj same
        simp at other
      · simpa using digit

theorem IsBare.isPacked_eq {name : Text} (bare : IsBare name) : isPacked name = false := by
  have unquoted : startsQuoted name = false := by
    rw [startsQuoted, beq_eq_false_iff_ne]
    intro quote
    exact (bare.letter _ quote).2 (by simp)
  simp [isPacked, unquoted]

end Listing

namespace Environment

variable {environment : Environment} {name : Text}

/-- A listed name is zero among the items of a list, and is not remarked upon. -/
theorem item_of_listed (listed : name ∈ environment.suppressed) (width : Width) :
    environment.item width (.label name) = .ok (.number 0, [name]) ∧
      environment.referenceRemarks name = [] := by
  have suppressed : environment.Suppressed name := .inr (.inr listed)
  constructor
  · exact item_eq_ok_iff.2 (.suppressed suppressed)
  · rw [referenceRemarks, reference_eq_ok_iff.2 (.inl ⟨suppressed, rfl⟩)]

/-- A declaration of a listed name alone. -/
theorem declarationLine_listed (listed : name ∈ environment.suppressed) {declaration : Declaration}
    (form : Form.ofOperands declaration.width declaration.operands = .ok (.list [.label name])) :
    environment.declarationLine declaration =
        .ok ⟨declaration.label, .list declaration.width [.number 0], [name]⟩ ∧
      environment.declarationRemarks declaration = [] := by
  obtain ⟨item, silent⟩ := item_of_listed listed declaration.width
  constructor
  · have made := statement_list_eq_ok_iff.2 ⟨_, .cons (item_eq_ok_iff.1 item) .nil, rfl⟩
    rw [declarationLine, form]
    exact Results.map_eq_ok_iff.2 ⟨_, made, rfl⟩
  · rw [declarationRemarks, form]
    simp [formRemarks, item, Except.isOk, Except.toBool, operandRemarks, silent]

/-- Operands that amount to one listed name, which ends the line. -/
theorem converts_listed (list : Suppression.IsList environment.suppressed)
    (listed : name ∈ environment.suppressed) {label : Option Text}
    (isLabel : ∀ known, label = some known → IsLabel known) {before : List Text}
    (plain : ∀ word ∈ before, Written word ∧ word.length ≤ Word.limit)
    (entry : Entry.ofWords (label.toList ++ "dd".toList :: (before ++ [name])) =
      .declaration ⟨label, .double, before ++ [name]⟩)
    (form : Form.ofOperands .double (before ++ [name]) = .ok (.list [.label name])) :
    environment.Converts (label.toList ++ "dd".toList :: (before ++ [name]))
      ⟨label, .list .double [.number 0], [name]⟩ := by
  have isName := list.isName_of_mem listed
  have whole : label.toList ++ "dd".toList :: (before ++ [name]) =
      (label.toList ++ "dd".toList :: before) ++ [name] := by simp
  have front : ∀ part ∈ label.toList ++ "dd".toList :: before,
      Written part ∧ part.length ≤ Word.limit := by
    intro part member
    rcases List.mem_append.1 member with known | member
    · have found := isLabel part (by simpa using known)
      exact ⟨found.written, found.short⟩
    · rcases List.mem_cons.1 member with rfl | member
      · exact ⟨.of_plain (by decide) (by decide), by decide⟩
      · exact plain part member
  have short : ∀ part ∈ label.toList ++ "dd".toList :: (before ++ [name]),
      part.length ≤ Word.limit := by
    rw [whole]
    intro part member
    rcases List.mem_append.1 member with member | member
    · exact (front part member).2
    · rw [List.mem_singleton.1 member]
      exact isName.short
  obtain ⟨made, silent⟩ := @declarationLine_listed environment name listed
    ⟨label, .double, before ++ [name]⟩ form
  constructor
  · rw [whole]
    exact isName.words_unwords fun part member => (front part member).1
  · intro line spelled
    rw [readInside, spelled]
    simp only [map_text_of_short short, entry, truncationRemarks_of_short short, entryRemarks,
      silent, entryLabel, readEntry, made, List.append_nil]
    rfl

/-- A listed name is declared as zero and stands in the comment, whatever is known about it: after
`offset` unless it looks like a repeated value, and alone where it looks like no other operand, has
no point, and the line does not end the segment. -/
theorem readInside_listed (list : Suppression.IsList environment.suppressed)
    (listed : name ∈ environment.suppressed) {label : Option Text}
    (isLabel : ∀ known, label = some known → IsLabel known) :
    let data : Line := ⟨label, .list .double [.number 0], [name]⟩
    let declared := label.toList ++ ["dd".toList]
    (IsBare name → '.' ∉ name → (label = none → name ≠ "ends".toList) →
      environment.Converts (declared ++ [name]) data) ∧
    (isRepeat name = false → environment.Converts (declared ++ ["offset".toList, name]) data) ∧
    data.render environment.settings.symbolPrefix =
      data.labelText environment.settings.symbolPrefix ++ ".long 0\t\t# ".toList ++ name := by
  intro data declared
  have isName := list.isName_of_mem listed
  refine ⟨?_, ?_, ?_⟩
  · intro bare whole goes
    have isList : IsList .double name [] :=
      ⟨by simp, by simp, fun _ => bare.isPacked_eq, fun _ => whole⟩
    have own : Operand.ofWords .double [name] = [.label name] := by
      rw [Operand.ofWords, Operand.ofWord, if_neg bare.set, if_pos ⟨rfl, bare.startsNumeric_eq⟩]
    have form := Form.ofOperands_eq_ok_iff.2 ⟨by simp [isName.filled.symm], Form.Reads.list isList⟩
    rw [own] at form
    have entry := @Entry.ofWords_directive label isLabel "dd".toList name .double rfl []
      fun unlabelled _ => goes unlabelled
    rw [List.append_assoc]
    exact @converts_listed environment name list listed label isLabel [] (by simp) entry form
  · intro plain
    have isList : IsList .double "offset".toList [name] :=
      ⟨by simp, by simpa using plain, by decide, by decide⟩
    have form := Form.ofOperands_eq_ok_iff.2
      ⟨by simp [isName.filled.symm], Form.Reads.list isList⟩
    have entry := @Entry.ofWords_directive label isLabel "dd".toList "offset".toList .double rfl
      [name] (by simp)
    have marker : Written "offset".toList := .of_plain (by decide) (by decide)
    rw [List.append_assoc]
    exact @converts_listed environment name list listed label isLabel ["offset".toList]
      (by simpa using ⟨marker, by decide⟩) entry form
  · have statement : data.statement.render environment.settings.symbolPrefix = ".long 0".toList :=
      rfl
    have comment : data.commentText = "\t\t# ".toList ++ name := by
      simp [data, Line.commentText, Text.join]
    rw [Line.render, statement, comment, List.append_assoc, List.append_assoc]
    rfl

/-- An open quote in a name, and a name that was guessed to be a routine. -/
theorem readInside_listed_quote :
    let environment : Environment := ⟨.standard, .empty, .ofText "it's\nsub_2 ; a routine".toList⟩
    "it's".toList ∈ environment.suppressed ∧ "sub_2".toList ∈ environment.suppressed ∧
      (environment.readInside "dd it's".toList).result =
        .ok (.inside, [.data ⟨none, .list .double [.number 0], ["it's".toList]⟩]) ∧
      (environment.readInside "x dd offset sub_2".toList).result =
        .ok (.inside, [.data ⟨some ['x'], .list .double [.number 0], ["sub_2".toList]⟩]) := by
  intro environment
  have names : Suppression.namesOf "it's\nsub_2 ; a routine".toList =
      ["it's".toList, "sub_2".toList] := by decide +kernel
  have first : "it's".toList ∈ environment.suppressed :=
    Suppression.mem_ofText.2 (by rw [names]; decide)
  have second : "sub_2".toList ∈ environment.suppressed :=
    Suppression.mem_ofText.2 (by rw [names]; decide)
  have label : ∀ known, some ['x'] = some known → IsLabel known := by
    rintro known ⟨⟩
    exact ⟨.of_plain (by decide) (by decide), by decide, rfl, by decide, by decide⟩
  have bare : IsBare "it's".toList := ⟨by rintro letter ⟨⟩; decide, by decide⟩
  have alone := (@readInside_listed environment _ (.text _) first none (by simp)).1 bare
    (by decide) (by decide)
  have behind := (readInside_listed (.text _) second label).2.1 (by decide)
  refine ⟨first, second, ?_, ?_⟩
  · exact congrArg Reading.result (alone.read "dd it's".toList alone.spelled)
  · exact congrArg Reading.result (behind.read "x dd offset sub_2".toList behind.spelled)

/-- A name with a point is passed on as a number, two operands can be a repeat, and a line of a word
and `ends` ends the segment. -/
theorem readInside_listed_other :
    let environment : Environment := ⟨.standard, .empty, .ofText "a.b\ndup(1)\nends".toList⟩
    ("a.b".toList ∈ environment.suppressed ∧ IsBare "a.b".toList ∧
      (environment.readInside "dd a.b".toList).result =
        .ok (.inside, [.data ⟨none, .float .single "a.b".toList, []⟩])) ∧
    ("dup(1)".toList ∈ environment.suppressed ∧ IsBare "dup(1)".toList ∧
      (environment.readInside "dd offset dup(1)".toList).result =
        .error (.badNumber "offset".toList)) ∧
    ("ends".toList ∈ environment.suppressed ∧ IsBare "ends".toList ∧
      (environment.readInside "dd ends".toList).result = .ok (.outside, [])) := by
  intro environment
  have names : Suppression.namesOf "a.b\ndup(1)\nends".toList =
      ["a.b".toList, "dup(1)".toList, "ends".toList] := by decide +kernel
  have listed {name : Text} (member : name ∈ ["a.b".toList, "dup(1)".toList, "ends".toList]) :
      name ∈ environment.suppressed := Suppression.mem_ofText.2 (by rwa [names])
  refine ⟨⟨listed (by decide), ⟨by rintro letter ⟨⟩; decide, by decide⟩, by decide +kernel⟩,
    ⟨listed (by decide), ⟨by rintro letter ⟨⟩; decide, by decide⟩, by decide +kernel⟩,
    ⟨listed (by decide), ⟨by rintro letter ⟨⟩; decide, by decide⟩, by decide +kernel⟩⟩

end Environment

end DataSegment
