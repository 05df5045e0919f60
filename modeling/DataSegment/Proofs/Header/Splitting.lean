import DataSegment.Proofs.Header.Balance
import DataSegment.Text.Search
import DataSegment.Text.White

namespace DataSegment.Header

open Text

/-- How many more parentheses a text opens than it closes. -/
def nesting (text : Text) : Int := text.count '(' - text.count ')'

/-- A text closes what it opens and what was opened before, and at no place more. Here `depth`
counts the parentheses that were opened before. -/
structure IsWellNested (depth : Nat) (text : Text) : Prop where
  closed : depth + nesting text = 0
  nonneg : ∀ front, front <+: text → 0 ≤ depth + nesting front

/-- A comma stands at a place where no parenthesis is open. -/
def SeparatesAt (depth : Nat) (text : Text) (place : Nat) : Prop :=
  text[place]? = some ',' ∧ depth + nesting (text.take place) = 0

instance (depth : Nat) (text : Text) (place : Nat) : Decidable (SeparatesAt depth text place) :=
  inferInstanceAs (Decidable (_ ∧ _))

/-- Splits at the commas outside parentheses with a depth that can fall below zero. -/
def splitSigned (depth : Int) : Text → List Text
  | [] => [[]]
  | letter :: rest =>
      if letter = '(' then extendPart letter (splitSigned (depth + 1) rest)
      else if letter = ')' then extendPart letter (splitSigned (depth - 1) rest)
      else if letter = ',' ∧ depth = 0 then [] :: splitSigned depth rest
      else extendPart letter (splitSigned depth rest)

/-- What is cut out of a statement between its first parenthesis and the partner, or between the
parenthesis that follows and its partner. -/
inductive IsCut (statement : Text) : Text → Prop where
  | first {head after list rest : Text} (opened : breakOn? ['('] statement = some (head, after))
      (closed : closing? 0 after = some (list, rest)) : IsCut statement list
  | second {head after inner rest tail list behind : Text}
      (opened : breakOn? ['('] statement = some (head, after))
      (closed : closing? 0 after = some (inner, rest)) (follows : trim rest = '(' :: tail)
      (closedToo : closing? 0 tail = some (list, behind)) : IsCut statement list

/-- The first part and the other parts of a text that closes what is open. A part ends at a comma
where no parenthesis is open; each other letter belongs to its part. -/
inductive Splits : Nat → Text → Text → List Text → Prop where
  | nil : Splits 0 [] [] []
  | comma {text first : Text} {others : List Text} (later : Splits 0 text first others) :
      Splits 0 (',' :: text) [] (first :: others)
  | letter {depth next : Nat} {letter : Char} {text first : Text} {others : List Text}
      (level : (next : Int) = depth + nesting [letter]) (inner : letter = ',' → 0 < depth)
      (later : Splits next text first others) :
      Splits depth (letter :: text) (letter :: first) others

theorem nesting_cons (letter : Char) (text : Text) :
    nesting (letter :: text) = nesting [letter] + nesting text := by
  rw [← List.singleton_append]
  simp only [nesting, List.count_append]
  omega

theorem nesting_opening : nesting ['('] = 1 := rfl

theorem nesting_closing : nesting [')'] = -1 := rfl

/-- Other letters than parentheses leave the depth as it is. -/
theorem nesting_of_plain {letter : Char} (opening : letter ≠ '(') (closing : letter ≠ ')') :
    nesting [letter] = 0 := by
  simp [nesting, opening, closing]

section Letters

variable {depth next : Nat} {letter : Char} {text : Text}

theorem isWellNested_cons_iff (level : (next : Int) = depth + nesting [letter]) :
    IsWellNested depth (letter :: text) ↔ IsWellNested next text := by
  constructor
  · intro nested
    refine ⟨?_, fun front start => ?_⟩
    · have closed := nested.closed
      rw [nesting_cons] at closed
      omega
    · have kept := nested.nonneg (letter :: front) ((List.prefix_cons_inj letter).2 start)
      rw [nesting_cons] at kept
      omega
  · intro nested
    refine ⟨?_, fun front start => ?_⟩
    · rw [nesting_cons]
      have closed := nested.closed
      omega
    · rcases List.prefix_cons_iff.1 start with rfl | ⟨behind, rfl, later⟩
      · simp [nesting]
      · rw [nesting_cons]
        have kept := nested.nonneg behind later
        omega

theorem separatesAt_zero : SeparatesAt depth (letter :: text) 0 ↔ letter = ',' ∧ depth = 0 := by
  simp [SeparatesAt, nesting]

theorem separatesAt_succ (level : (next : Int) = depth + nesting [letter]) (place : Nat) :
    SeparatesAt depth (letter :: text) (place + 1) ↔ SeparatesAt next text place := by
  rw [SeparatesAt, SeparatesAt, List.getElem?_cons_succ, List.take_succ_cons, nesting_cons, level,
    Int.add_assoc]

end Letters

theorem splitSigned_cons (depth : Int) (letter : Char) (rest : Text) :
    splitSigned depth (letter :: rest) =
      if letter = ',' ∧ depth = 0 then [] :: splitSigned (depth + nesting [letter]) rest
      else extendPart letter (splitSigned (depth + nesting [letter]) rest) := by
  rw [splitSigned]
  split
  · rename_i opening
    rw [opening, nesting_opening, if_neg (by simp)]
  · rename_i other
    split
    · rename_i closing
      rw [closing, nesting_closing, if_neg (by simp), Int.sub_eq_add_neg]
    · rename_i plain
      rw [nesting_of_plain other plain, Int.add_zero]

/-- Two ways to say that each parenthesis has its partner. -/
theorem isBalanced_iff {depth : Nat} {text : Text} :
    isBalanced depth text = true ↔ IsWellNested depth text := by
  induction text generalizing depth with
  | nil =>
      rw [isBalanced, beq_iff_eq]
      constructor
      · rintro rfl
        refine ⟨rfl, fun front start => ?_⟩
        rw [List.prefix_nil.1 start]
        decide
      · intro nested
        have closed := nested.closed
        simpa [nesting] using closed
  | cons letter text inductionHypothesis =>
      rw [isBalanced.eq_def]
      dsimp only
      split
      · rename_i opening
        refine inductionHypothesis.trans (isWellNested_cons_iff ?_).symm
        rw [opening, nesting_opening]
        rfl
      · rename_i other
        split
        · rename_i closing
          cases depth with
          | zero =>
              constructor
              · intro impossible
                contradiction
              · intro nested
                have below := nested.nonneg [letter] ⟨text, rfl⟩
                rw [closing] at below
                exact absurd below (by decide)
          | succ depth =>
              refine inductionHypothesis.trans (isWellNested_cons_iff ?_).symm
              rw [closing, nesting_closing]
              omega
        · rename_i plain
          refine inductionHypothesis.trans (isWellNested_cons_iff ?_).symm
          rw [nesting_of_plain other plain, Int.add_zero]

/-- What is balanced comes apart letter by letter. -/
theorem exists_splits {depth : Nat} {text : Text} (balanced : isBalanced depth text = true) :
    ∃ first others, splitCommas depth text = first :: others ∧ Splits depth text first others := by
  induction text generalizing depth with
  | nil =>
      obtain rfl : depth = 0 := by simpa [isBalanced] using balanced
      exact ⟨[], [], rfl, .nil⟩
  | cons letter text inductionHypothesis =>
      have step {next : Nat} (inner : isBalanced next text = true)
          (level : (next : Int) = depth + nesting [letter]) (comma : letter = ',' → 0 < depth) :
          ∃ first others, extendPart letter (splitCommas next text) = first :: others ∧
            Splits depth (letter :: text) first others := by
        obtain ⟨first, others, parts, later⟩ := inductionHypothesis inner
        exact ⟨letter :: first, others, by rw [parts, extendPart], .letter level comma later⟩
      rw [isBalanced.eq_def] at balanced
      dsimp only at balanced
      rw [splitCommas]
      split at balanced
      · rename_i opening
        rw [if_pos opening]
        exact step balanced (by rw [opening]; rfl) (by simp [opening])
      · rename_i other
        rw [if_neg other]
        split at balanced
        · rename_i closing
          rw [if_pos closing]
          cases depth with
          | zero => contradiction
          | succ depth =>
              refine step balanced ?_ (by simp [closing])
              rw [closing, nesting_closing]
              omega
        · rename_i plain
          rw [if_neg plain]
          have level : (depth : Int) = depth + nesting [letter] := by
            rw [nesting_of_plain other plain, Int.add_zero]
          split
          · rename_i separates
            obtain ⟨rfl, rfl⟩ := separates
            obtain ⟨first, others, parts, later⟩ := inductionHypothesis balanced
            exact ⟨[], first :: others, by rw [parts], .comma later⟩
          · rename_i joined
            exact step balanced level fun comma => Nat.pos_of_ne_zero (joined ⟨comma, ·⟩)

namespace Splits

variable {depth : Nat} {text first : Text} {others : List Text}

/-- The parts and the commas between them are the whole text. -/
theorem join_eq (splits : Splits depth text first others) :
    join [','] (first :: others) = text := by
  induction splits with
  | nil => rfl
  | comma _ inductionHypothesis =>
      rw [join, List.intercalate_cons_cons, ← join, inductionHypothesis]
      rfl
  | @letter _ _ letter _ first others _ _ _ inductionHypothesis =>
      have glued : join [','] ((letter :: first) :: others) =
          letter :: join [','] (first :: others) := by
        cases others <;> simp [join, List.intercalate_cons_cons]
      rw [glued, inductionHypothesis]

theorem isWellNested (splits : Splits depth text first others) :
    IsWellNested depth first ∧ ∀ other ∈ others, IsWellNested 0 other := by
  have empty : IsWellNested 0 [] := isBalanced_iff.1 rfl
  induction splits with
  | nil => exact ⟨empty, by simp⟩
  | comma _ inductionHypothesis =>
      exact ⟨empty, List.forall_mem_cons.2 inductionHypothesis⟩
  | letter level _ _ inductionHypothesis =>
      exact ⟨(isWellNested_cons_iff level).2 inductionHypothesis.1, inductionHypothesis.2⟩

/-- No part has a comma outside of parentheses. -/
theorem not_separatesAt (splits : Splits depth text first others) :
    (∀ place, ¬SeparatesAt depth first place) ∧
      ∀ other ∈ others, ∀ place, ¬SeparatesAt 0 other place := by
  have empty (place : Nat) : ¬SeparatesAt 0 [] place := by simp [SeparatesAt]
  induction splits with
  | nil => exact ⟨empty, by simp⟩
  | comma _ inductionHypothesis =>
      exact ⟨empty, List.forall_mem_cons.2 inductionHypothesis⟩
  | letter level inner _ inductionHypothesis =>
      refine ⟨fun place => ?_, inductionHypothesis.2⟩
      cases place with
      | zero =>
          rw [separatesAt_zero]
          rintro ⟨comma, closed⟩
          have opened := inner comma
          omega
      | succ place =>
          rw [separatesAt_succ level]
          exact inductionHypothesis.1 place

/-- Each comma outside of parentheses starts another part. -/
theorem countP_separatesAt (splits : Splits depth text first others) :
    (List.range text.length).countP (fun place => SeparatesAt depth text place) =
      others.length := by
  have step {depth next : Nat} {letter : Char} {text : Text}
      (level : (next : Int) = depth + nesting [letter]) :
      (List.range (letter :: text).length).countP
          (fun place => SeparatesAt depth (letter :: text) place) =
        (List.range text.length).countP (fun place => SeparatesAt next text place) +
          if letter = ',' ∧ depth = 0 then 1 else 0 := by
    rw [List.length_cons, List.range_succ_eq_map, List.countP_cons, List.countP_map]
    simp only [separatesAt_zero, Function.comp_def, separatesAt_succ level, decide_eq_true_eq]
  induction splits with
  | nil => rfl
  | comma _ inductionHypothesis =>
      have level : ((0 : Nat) : Int) = (0 : Nat) + nesting [','] := rfl
      rw [step level, inductionHypothesis, if_pos ⟨rfl, rfl⟩, List.length_cons]
  | letter level inner _ inductionHypothesis =>
      rw [step level, inductionHypothesis, if_neg, Nat.add_zero]
      rintro ⟨comma, closed⟩
      have opened := inner comma
      omega

theorem splitSigned_eq (splits : Splits depth text first others) :
    splitSigned depth text = first :: others := by
  induction splits with
  | nil => rfl
  | comma _ inductionHypothesis =>
      rw [splitSigned_cons, if_pos ⟨rfl, rfl⟩]
      exact congrArg _ inductionHypothesis
  | letter level inner _ inductionHypothesis =>
      rw [splitSigned_cons, if_neg, ← level, inductionHypothesis, extendPart]
      rintro ⟨comma, closed⟩
      have opened := inner comma
      omega

end Splits

/-- What is cut out of a statement stands in front of the partner of a parenthesis. -/
theorem IsCut.isBalanced {statement list : Text} (cut : IsCut statement list) :
    isBalanced 0 list = true := by
  cases cut with
  | first _ closed => exact isBalanced_of_closing? closed
  | second _ _ _ closedToo => exact isBalanced_of_closing? closedToo

/-- What is cut out of a statement closes the parentheses that it opens and at no place more. Its
parts do so too, have no comma outside of parentheses, are the text when commas are put between
them, and are one more than its commas outside of parentheses. A depth that can fall below zero
gives the same parts. -/
theorem splitCommas_isCut {statement list : Text} (cut : IsCut statement list) :
    IsWellNested 0 list ∧ join [','] (splitCommas 0 list) = list ∧
      (∀ part ∈ splitCommas 0 list,
        IsWellNested 0 part ∧ ∀ place, ¬SeparatesAt 0 part place) ∧
      (splitCommas 0 list).length =
        1 + (List.range list.length).countP (fun place => SeparatesAt 0 list place) ∧
      splitSigned 0 list = splitCommas 0 list := by
  obtain ⟨first, others, parts, splits⟩ := exists_splits cut.isBalanced
  rw [parts]
  refine ⟨isBalanced_iff.1 cut.isBalanced, splits.join_eq, ?_, ?_, splits.splitSigned_eq⟩
  · obtain ⟨nested, nestedToo⟩ := splits.isWellNested
    obtain ⟨solid, solidToo⟩ := splits.not_separatesAt
    exact List.forall_mem_cons.2
      ⟨⟨nested, solid⟩, fun other member => ⟨nestedToo other member, solidToo other member⟩⟩
  · rw [splits.countP_separatesAt, List.length_cons, Nat.add_comm]

/-- A list of a pointer with a list nested in it. -/
theorem splitCommas_isCut_nested :
    IsCut "int (*p)(int a, void (*cb)(int, int), char c)".toList
        "int a, void (*cb)(int, int), char c".toList ∧
      join [','] (splitCommas 0 "int a, void (*cb)(int, int), char c".toList) =
        "int a, void (*cb)(int, int), char c".toList ∧
      (splitCommas 0 "int a, void (*cb)(int, int), char c".toList).length = 1 + 2 := by
  have opened : breakOn? ['('] "int (*p)(int a, void (*cb)(int, int), char c)".toList =
      some ("int ".toList, "*p)(int a, void (*cb)(int, int), char c)".toList) := by decide +kernel
  have closed : closing? 0 "*p)(int a, void (*cb)(int, int), char c)".toList =
      some ("*p".toList, "(int a, void (*cb)(int, int), char c)".toList) := by decide +kernel
  have follows : trim "(int a, void (*cb)(int, int), char c)".toList =
      '(' :: "int a, void (*cb)(int, int), char c)".toList := by decide +kernel
  have closedToo : closing? 0 "int a, void (*cb)(int, int), char c)".toList =
      some ("int a, void (*cb)(int, int), char c".toList, []) := by decide +kernel
  have cut := IsCut.second opened closed follows closedToo
  obtain ⟨_, whole, _, count, _⟩ := splitCommas_isCut cut
  have separators : (List.range "int a, void (*cb)(int, int), char c".toList.length).countP
      (fun place => SeparatesAt 0 "int a, void (*cb)(int, int), char c".toList place) = 2 := by
    decide +kernel
  exact ⟨cut, whole, by rw [count, separators]⟩

end DataSegment.Header
