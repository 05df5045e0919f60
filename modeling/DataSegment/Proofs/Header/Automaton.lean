import DataSegment.Proofs.Header.Cut
import DataSegment.Proofs.Header.Scan
import Mathlib.Logic.Relation

namespace DataSegment.Header

open Relation Text

/-- The automaton is in code or in a block comment. -/
inductive Mode where
  | code
  | block
  deriving DecidableEq, Repr

def Mode.ofInside (inside : Bool) : Mode := if inside then .block else .code

/-- The automaton on a line: where it is, what it has still to read and what it has written. -/
structure Automaton where
  mode : Mode
  rest : Text
  written : Text

/-- The moves of the automaton. The marks of a comment are read as a whole, so that no character
belongs to two of them. -/
inductive Automaton.Step : Automaton → Automaton → Prop where
  | line (rest written : Text) : Step ⟨.code, '/' :: '/' :: rest, written⟩ ⟨.code, [], written⟩
  | opening (rest written : Text) :
      Step ⟨.code, '/' :: '*' :: rest, written⟩ ⟨.block, rest, written⟩
  | keep {letter : Char} {rest : Text} (plain : ¬StartsComment (letter :: rest)) (written : Text) :
      Step ⟨.code, letter :: rest, written⟩ ⟨.code, rest, written ++ [letter]⟩
  | closing (rest written : Text) :
      Step ⟨.block, '*' :: '/' :: rest, written⟩ ⟨.code, rest, written ++ [' ']⟩
  | drop {letter : Char} {rest : Text} (goes : ¬['*', '/'] <+: letter :: rest) (written : Text) :
      Step ⟨.block, letter :: rest, written⟩ ⟨.block, rest, written⟩

/-- The automaton reads lines one after the other. Only its mode is carried to the next line. -/
inductive Automaton.Reads : Mode → List Text → List Text → Mode → Prop where
  | nil (mode : Mode) : Reads mode [] [] mode
  | cons {mode next last : Mode} {line code : Text} {lines codes : List Text}
      (run : ReflTransGen Step ⟨mode, line, []⟩ ⟨next, [], code⟩)
      (later : Reads next lines codes last) : Reads mode (line :: lines) (code :: codes) last

/-- The code of lines, and whether the last one ends inside a block comment. -/
def codes (strip : Bool → Text → Text × Bool) (inside : Bool) : List Text → List Text × Bool
  | [] => ([], inside)
  | line :: lines =>
      let code := strip inside line
      let later := codes strip code.2 lines
      (code.1 :: later.1, later.2)

/-- Behind the first occurrence of a pattern the text is shorter. -/
theorem length_lt_of_breakOn? {pattern text before after : Text} (filled : pattern ≠ [])
    (broken : breakOn? pattern text = some (before, after)) : after.length < text.length := by
  have parts := congrArg List.length (eq_append_of_breakOn? broken)
  have positive := List.length_pos_iff.2 filled
  simp only [List.length_append] at parts
  omega

/-- The code of a line by searching it for marks. Of the marks of two comments the one that stands
first counts. -/
def searched (inside : Bool) (line : Text) : Text × Bool :=
  match inside with
  | true =>
      match found : breakOn? ['*', '/'] line with
      | none => ([], true)
      | some (_, rest) =>
          have := length_lt_of_breakOn? (by simp) found
          let code := searched false rest
          (' ' :: code.1, code.2)
  | false =>
      match breakOn? ['/', '/'] line, found : breakOn? ['/', '*'] line with
      | none, none => (line, false)
      | some (before, _), none => (before, false)
      | none, some (before, rest) =>
          have := length_lt_of_breakOn? (by simp) found
          let code := searched true rest
          (before ++ code.1, code.2)
      | some (before, _), some (other, rest) =>
          if before.length < other.length then (before, false)
          else
            have := length_lt_of_breakOn? (by simp) found
            let code := searched true rest
            (other ++ code.1, code.2)
termination_by line.length

section Search

variable {before rest line : Text}

/-- The first occurrence of two neighbours. -/
theorem breakOn?_pair_iff {letter next : Char} :
    breakOn? [letter, next] line = some (before, rest) ↔
      line = before ++ letter :: next :: rest ∧ ¬[letter, next] <:+: before ++ [letter] := by
  rw [breakOn?_eq_some_iff (by simp), List.append_assoc]
  rfl

/-- Code goes on as long as no comment starts in it. -/
theorem withoutComments_plain_append (single : ¬['/', '/'] <:+: before ++ rest.take 1)
    (block : ¬['/', '*'] <:+: before ++ rest.take 1) :
    withoutComments false (before ++ rest) =
      (before ++ (withoutComments false rest).1, (withoutComments false rest).2) := by
  induction before with
  | nil => rfl
  | cons letter before inductionHypothesis =>
      have later := inductionHypothesis
        (fun found => single (found.trans (List.suffix_cons letter _).isInfix))
        (fun found => block (found.trans (List.suffix_cons letter _).isInfix))
      have first : (before ++ rest).head? = (before ++ rest.take 1).head? := by
        cases before with
        | nil => cases rest <;> rfl
        | cons next before => rfl
      have plain : ¬StartsComment (letter :: (before ++ rest)) := by
        rw [startsComment_cons, first]
        rintro ⟨rfl, mark | mark⟩
        · obtain ⟨tail, same⟩ := List.head?_eq_some_iff.1 mark
          exact single ⟨[], tail, by rw [List.cons_append, same]; rfl⟩
        · obtain ⟨tail, same⟩ := List.head?_eq_some_iff.1 mark
          exact block ⟨[], tail, by rw [List.cons_append, same]; rfl⟩
      rw [List.cons_append, withoutComments_code_cons plain, later]
      rfl

theorem withoutComments_block_append (closed : ¬['*', '/'] <:+: before ++ ['*']) :
    withoutComments true (before ++ '*' :: '/' :: rest) =
      (' ' :: (withoutComments false rest).1, (withoutComments false rest).2) := by
  induction before with
  | nil => rfl
  | cons letter before inductionHypothesis =>
      have goes : letter = '*' → (before ++ '*' :: '/' :: rest).head? ≠ some '/' := by
        rintro rfl first
        cases before with
        | nil => exact absurd first (by simp)
        | cons next before =>
            obtain rfl := Option.some.inj first
            exact closed ⟨[], before ++ ['*'], rfl⟩
      rw [List.cons_append, withoutComments_block_cons goes]
      exact inductionHypothesis fun found =>
        closed (found.trans (List.suffix_cons letter _).isInfix)

theorem withoutComments_block_of_open (unclosed : ¬['*', '/'] <:+: line) :
    withoutComments true line = ([], true) := by
  induction line with
  | nil => rfl
  | cons letter line inductionHypothesis =>
      have goes : letter = '*' → line.head? ≠ some '/' := by
        rintro rfl first
        obtain ⟨tail, rfl⟩ := List.head?_eq_some_iff.1 first
        exact unclosed ⟨[], tail, rfl⟩
      rw [withoutComments_block_cons goes]
      exact inductionHypothesis fun found =>
        unclosed (found.trans (List.suffix_cons letter _).isInfix)

/-- Of two places in a line the nearer one stands in front of what is in front of the other. -/
theorem prefix_of_nearer {other first second : Text} {mark : Char}
    (here : line = before ++ mark :: first) (there : line = other ++ mark :: second)
    (nearer : before.length ≤ other.length) : before ++ [mark] <+: other ++ [mark] := by
  have start : before ++ [mark] <+: line := ⟨first, by simp [here]⟩
  have startToo : other ++ [mark] <+: line := ⟨second, by simp [there]⟩
  exact List.prefix_of_prefix_length_le start startToo (by simpa using nearer)

theorem withoutComments_line {after : Text} (single : ¬['/', '/'] <:+: before ++ ['/'])
    (block : ¬['/', '*'] <:+: before ++ ['/']) :
    withoutComments false (before ++ '/' :: '/' :: after) = (before, false) := by
  rw [withoutComments_plain_append single block, withoutComments, if_neg (by simp),
    if_pos ⟨rfl, rfl⟩, List.append_nil]

theorem withoutComments_opening {after : Text} (single : ¬['/', '/'] <:+: before ++ ['/'])
    (block : ¬['/', '*'] <:+: before ++ ['/']) :
    withoutComments false (before ++ '/' :: '*' :: after) =
      (before ++ (withoutComments true after).1, (withoutComments true after).2) := by
  rw [withoutComments_plain_append single block, withoutComments, if_neg (by simp),
    if_neg (by simp), if_pos ⟨rfl, rfl⟩]

/-- The search finds the code of a line. -/
theorem searched_eq (inside : Bool) (line : Text) :
    searched inside line = withoutComments inside line := by
  fun_induction searched inside line with
  | case1 line found =>
      rw [withoutComments_block_of_open ((breakOn?_eq_none_iff (by simp)).1 found)]
  | case2 line before rest found shorter code inductionHypothesis =>
      obtain ⟨rfl, first⟩ := breakOn?_pair_iff.1 found
      rw [withoutComments_block_append first, ← inductionHypothesis]
  | case3 line found missing =>
      rw [breakOn?_eq_none_iff (by simp)] at missing found
      rw [withoutComments_eq missing found]
  | case4 line before after missing single =>
      obtain ⟨rfl, first⟩ := breakOn?_pair_iff.1 single
      have absent := (breakOn?_eq_none_iff (by simp)).1 missing
      have front : before ++ ['/'] <:+: before ++ '/' :: '/' :: after :=
        ⟨[], '/' :: after, by simp⟩
      rw [withoutComments_line first fun found => absent (found.trans front)]
  | case5 line before rest found missing shorter code inductionHypothesis =>
      obtain ⟨rfl, first⟩ := breakOn?_pair_iff.1 found
      have absent := (breakOn?_eq_none_iff (by simp)).1 missing
      have front : before ++ ['/'] <:+: before ++ '/' :: '*' :: rest :=
        ⟨[], '*' :: rest, by simp⟩
      rw [withoutComments_opening (fun found => absent (found.trans front)) first,
        ← inductionHypothesis]
  | case6 line before after other rest block single nearer =>
      -- In front of the nearer mark stands no mark, because each found mark is the first one.
      obtain ⟨here, first⟩ := breakOn?_pair_iff.1 single
      obtain ⟨there, firstToo⟩ := breakOn?_pair_iff.1 block
      have inFront := (prefix_of_nearer here there (Nat.le_of_lt nearer)).isInfix
      rw [here, withoutComments_line first fun found => firstToo (found.trans inFront)]
  | case7 line before after other rest block single farther shorter code inductionHypothesis =>
      obtain ⟨here, first⟩ := breakOn?_pair_iff.1 single
      obtain ⟨there, firstToo⟩ := breakOn?_pair_iff.1 block
      have inFront := (prefix_of_nearer there here (Nat.le_of_not_lt farther)).isInfix
      rw [there, withoutComments_opening (fun found => first (found.trans inFront)) firstToo,
        ← inductionHypothesis]

end Search

namespace Automaton

/-- No two moves are possible at once. -/
theorem step_rightUnique : Relator.RightUnique Step := by
  intro start first second move other
  cases move with
  | line rest =>
      cases other with
      | line => rfl
      | keep plain => exact absurd (.inl ⟨rest, rfl⟩) plain
  | opening rest =>
      cases other with
      | opening => rfl
      | keep plain => exact absurd (.inr ⟨rest, rfl⟩) plain
  | keep plain =>
      cases other with
      | line rest => exact absurd (.inl ⟨rest, rfl⟩) plain
      | opening rest => exact absurd (.inr ⟨rest, rfl⟩) plain
      | keep => rfl
  | closing rest =>
      cases other with
      | closing => rfl
      | drop goes => exact absurd ⟨rest, rfl⟩ goes
  | drop goes =>
      cases other with
      | closing rest => exact absurd ⟨rest, rfl⟩ goes
      | drop => rfl

/-- At the end of a line the automaton stops. -/
theorem eq_of_stopped {mode : Mode} {written : Text} {last : Automaton}
    (run : ReflTransGen Step ⟨mode, [], written⟩ last) : last = ⟨mode, [], written⟩ := by
  rcases run.cases_head with same | ⟨next, move, _⟩
  · exact same.symm
  · cases move

/-- The automaton reads every line to its end and writes its code. -/
theorem run_withoutComments (inside : Bool) (line written : Text) :
    ReflTransGen Step ⟨.ofInside inside, line, written⟩
      ⟨.ofInside (withoutComments inside line).2, [],
        written ++ (withoutComments inside line).1⟩ := by
  fun_induction withoutComments inside line generalizing written with
  | case1 inside => rw [List.append_nil]
  | case2 inside letter =>
      cases inside with
      | true =>
          rw [if_pos rfl, List.append_nil]
          exact .single (.drop (by simp) written)
      | false => exact .single (.keep (by simp [startsComment_cons]) written)
  | case3 letter next rest closes code inductionHypothesis =>
      obtain ⟨rfl, rfl⟩ := closes
      have later := inductionHypothesis (written ++ [' '])
      rw [List.append_assoc] at later
      exact .head (.closing rest written) later
  | case4 letter next rest goes inductionHypothesis =>
      have stays : ¬['*', '/'] <+: letter :: next :: rest := by
        simpa only [List.cons_prefix_cons, List.nil_prefix, and_true, eq_comm] using goes
      exact .head (.drop stays written) (inductionHypothesis written)
  | case5 inside letter next rest outside line =>
      obtain rfl : inside = false := by simpa using outside
      obtain ⟨rfl, rfl⟩ := line
      rw [List.append_nil]
      exact .single (.line rest written)
  | case6 inside letter next rest outside line block inductionHypothesis =>
      obtain rfl : inside = false := by simpa using outside
      obtain ⟨rfl, rfl⟩ := block
      exact .head (.opening rest written) (inductionHypothesis written)
  | case7 inside letter next rest outside line block code inductionHypothesis =>
      obtain rfl : inside = false := by simpa using outside
      have plain : ¬StartsComment (letter :: next :: rest) := by
        rw [startsComment_cons, List.head?_cons, Option.some.injEq, Option.some.injEq]
        rintro ⟨slash, mark⟩
        exact mark.elim (fun next => line ⟨slash, next⟩) fun next => block ⟨slash, next⟩
      have later := inductionHypothesis (written ++ [letter])
      rw [List.append_assoc] at later
      exact .head (.keep plain written) later

/-- A line is read in one way only. -/
theorem run_iff {inside : Bool} {line code : Text} {mode : Mode} :
    ReflTransGen Step ⟨.ofInside inside, line, []⟩ ⟨mode, [], code⟩ ↔
      code = (withoutComments inside line).1 ∧
        mode = .ofInside (withoutComments inside line).2 := by
  have complete := run_withoutComments inside line []
  rw [List.nil_append] at complete
  constructor
  · intro run
    obtain onward | back := ReflTransGen.total_of_right_unique step_rightUnique run complete
    · obtain ⟨rfl, -, rfl⟩ := Automaton.mk.inj (eq_of_stopped onward)
      exact ⟨rfl, rfl⟩
    · obtain ⟨rfl, -, rfl⟩ := Automaton.mk.inj (eq_of_stopped back)
      exact ⟨rfl, rfl⟩
  · rintro ⟨rfl, rfl⟩
    exact complete

/-- Lines are read in one way only, whatever the flag they start with. -/
theorem reads_iff {inside : Bool} {lines texts : List Text} {last : Mode} :
    Reads (.ofInside inside) lines texts last ↔
      texts = (codes withoutComments inside lines).1 ∧
        last = .ofInside (codes withoutComments inside lines).2 := by
  induction lines generalizing inside texts with
  | nil =>
      constructor
      · rintro ⟨⟩
        exact ⟨rfl, rfl⟩
      · rintro ⟨rfl, rfl⟩
        exact .nil _
  | cons line lines inductionHypothesis =>
      constructor
      · intro reads
        cases reads with
        | cons run later =>
            obtain ⟨rfl, rfl⟩ := run_iff.1 run
            obtain ⟨rfl, rfl⟩ := inductionHypothesis.1 later
            exact ⟨rfl, rfl⟩
      · rintro ⟨rfl, rfl⟩
        exact .cons (run_iff.2 ⟨rfl, rfl⟩) (inductionHypothesis.2 ⟨rfl, rfl⟩)

end Automaton

theorem Scan.inside_readLines_codes (number : Nat) (scan : Scan) (lines : List Text) :
    (readLines number scan lines).2.inside = (codes withoutComments scan.inside lines).2 := by
  induction lines generalizing number scan with
  | nil => rfl
  | cons line lines inductionHypothesis =>
      rw [readLines, codes, ← inside_readLine number]
      exact inductionHypothesis (number + 1) _

/-- From lines the search removes the same comments as the automaton, which reads them in one way
only. A scan carries the same flag from line to line. -/
theorem codes_automaton (inside : Bool) (lines : List Text) :
    codes searched inside lines = codes withoutComments inside lines ∧
      (∀ texts last, Automaton.Reads (.ofInside inside) lines texts last ↔
        texts = (codes withoutComments inside lines).1 ∧
          last = .ofInside (codes withoutComments inside lines).2) ∧
      ∀ number (scan : Scan),
        (scan.readLines number lines).2.inside = (codes withoutComments scan.inside lines).2 := by
  refine ⟨?_, fun texts last => Automaton.reads_iff, fun number scan => ?_⟩
  · rw [funext fun inside => funext (searched_eq inside)]
  · exact Scan.inside_readLines_codes number scan lines

example :
    codes withoutComments false
        ["a/*/b".toList, "*/*c/**/d".toList, "e//*f".toList, "g/*".toList, "h*/ /".toList] =
      (["a".toList, " *c d".toList, "e".toList, "g".toList, "  /".toList], false) := by decide

end DataSegment.Header
