import DataSegment.Proofs.Header.Balance
import DataSegment.Proofs.Header.Respacing
import Mathlib.Logic.Relation

namespace DataSegment.Header

open Relation Text

/-- The first annotation of a text starts behind `before`. -/
def Annotates (before after text : Text) : Prop :=
  text = before ++ (annotationMark ++ after) ∧
    ¬annotationMark <:+: before ++ annotationMark.dropLast

/-- One round puts a space in the place of the first annotation when its parenthesis is closed. -/
inductive Dropped : Text → Text → Prop where
  | closed {text before inner rest : Text} (first : Annotates before (inner ++ ')' :: rest) text)
      (balanced : isBalanced 0 inner = true) : Dropped text (before ++ ' ' :: rest)

/-- What is left of a statement. -/
structure IsStripped (text : Text) : Prop where
  spaced : text = [] ∨ SingleSpaced text
  unspecified : ∀ word ∈ words text, word ∉ specifiers
  /-- The parenthesis of the first annotation has no partner. -/
  unclosed : ∀ before after, Annotates before after text →
    ∀ inner rest, after = inner ++ ')' :: rest → isBalanced 0 inner = false

theorem breakOn?_annotationMark_iff {text before after : Text} :
    breakOn? annotationMark text = some (before, after) ↔ Annotates before after text := by
  rw [breakOn?_eq_some_iff (by decide +kernel), Annotates, List.append_assoc]

theorem closing?_eq_none_iff {depth : Nat} {text : Text} :
    closing? depth text = none ↔
      ∀ inner rest, text = inner ++ ')' :: rest → isBalanced depth inner = false := by
  constructor
  · intro missing inner rest parts
    rw [Bool.eq_false_iff]
    intro balanced
    rw [closing?_eq_some_iff.2 ⟨parts, balanced⟩] at missing
    contradiction
  · intro unbalanced
    cases found : closing? depth text with
    | none => rfl
    | some halves =>
        obtain ⟨parts, balanced⟩ := closing?_eq_some_iff.1 found
        rw [unbalanced _ _ parts] at balanced
        contradiction

section Rounds

variable {text next before rest : Text}

theorem Dropped.length_lt (dropped : Dropped text next) : next.length < text.length := by
  obtain ⟨⟨rfl, _⟩, _⟩ := dropped
  have mark : annotationMark.length = 11 := by decide +kernel
  simp only [List.length_append, List.length_cons, mark]
  omega

theorem dropped_rightUnique : Relator.RightUnique Dropped := by
  intro text next other dropped droppedToo
  obtain ⟨first, balanced⟩ := dropped
  obtain ⟨firstToo, balancedToo⟩ := droppedToo
  have same := (breakOn?_annotationMark_iff.2 first).symm.trans
    (breakOn?_annotationMark_iff.2 firstToo)
  obtain ⟨rfl, behind⟩ := Prod.mk.inj (Option.some.inj same)
  have halves := (closing?_of_isBalanced balanced _).symm.trans
    ((congrArg (closing? 0) behind).trans (closing?_of_isBalanced balancedToo _))
  rw [(Prod.mk.inj (Option.some.inj halves)).2]

/-- The space in the place of an annotation is part of no other one. -/
theorem breakOn?_annotationMark_append (unmarked : ¬annotationMark <:+: before) (rest : Text) :
    breakOn? annotationMark (before ++ ' ' :: rest) =
      (breakOn? annotationMark rest).map fun halves => (before ++ ' ' :: halves.1, halves.2) :=
  breakOn?_append_cons (by decide +kernel) (by decide +kernel) unmarked rest

theorem Dropped.append_space (unmarked : ¬annotationMark <:+: before)
    (dropped : Dropped text next) : Dropped (before ++ ' ' :: text) (before ++ ' ' :: next) := by
  obtain ⟨first, balanced⟩ := dropped
  have moved := breakOn?_annotationMark_append unmarked text
  rw [breakOn?_annotationMark_iff.2 first, Option.map_some] at moved
  have later := Dropped.closed (breakOn?_annotationMark_iff.1 moved) balanced
  rwa [List.append_assoc, List.cons_append] at later

theorem Annotates.unmarked {after : Text} (first : Annotates before after text) :
    ¬annotationMark <:+: before :=
  fun found => first.2 (found.trans (List.prefix_append before _).isInfix)

/-- The rounds lead to what is left without annotations. -/
theorem reaches_dropAnnotations (text : Text) :
    ReflTransGen Dropped text (dropAnnotations text) := by
  fun_induction dropAnnotations text with
  | case1 text missing => exact .refl
  | case2 text before after found closed => exact .refl
  | case3 text before after found inner rest closed smaller inductionHypothesis =>
      obtain ⟨rfl, balanced⟩ := closing?_eq_some_iff.1 closed
      have first := breakOn?_annotationMark_iff.1 found
      have later := inductionHypothesis.lift (fun text => before ++ ' ' :: text)
        fun _ _ => Dropped.append_space first.unmarked
      exact .head (.closed first balanced) later

/-- The first annotation that is left is not closed. -/
theorem closing?_of_dropAnnotations {after : Text}
    (left : breakOn? annotationMark (dropAnnotations text) = some (before, after)) :
    closing? 0 after = none := by
  fun_induction dropAnnotations text generalizing before with
  | case1 text missing =>
      rw [missing] at left
      contradiction
  | case2 text front back found closed =>
      obtain ⟨rfl, rfl⟩ := Prod.mk.inj (Option.some.inj (found.symm.trans left))
      exact closed
  | case3 text front back found inner rest closed smaller inductionHypothesis =>
      rw [breakOn?_annotationMark_append (breakOn?_annotationMark_iff.1 found).unmarked] at left
      obtain ⟨⟨first, second⟩, later, same⟩ := Option.map_eq_some_iff.1 left
      obtain ⟨_, rfl⟩ := Prod.mk.inj same
      exact inductionHypothesis later

theorem not_dropped_dropAnnotations (text next : Text) : ¬Dropped (dropAnnotations text) next := by
  rintro ⟨first, balanced⟩
  have unclosed := closing?_of_dropAnnotations (breakOn?_annotationMark_iff.2 first)
  rw [closing?_of_isBalanced balanced] at unclosed
  contradiction

/-- A text without a round is the last one. -/
theorem eq_of_not_dropped {last other : Text} (done : ∀ next, ¬Dropped last next)
    (run : ReflTransGen Dropped last other) : other = last := by
  rcases run.cases_head with same | ⟨next, dropped, _⟩
  · exact same.symm
  · exact absurd dropped (done next)

/-- The rounds can end in one text only. -/
theorem eq_dropAnnotations {last : Text} (run : ReflTransGen Dropped text last)
    (done : ∀ next, ¬Dropped last next) : last = dropAnnotations text := by
  obtain onward | back := ReflTransGen.total_of_right_unique dropped_rightUnique run
    (reaches_dropAnnotations text)
  · exact (eq_of_not_dropped done onward).symm
  · exact eq_of_not_dropped (not_dropped_dropAnnotations text) back

/-- Where no annotation is closed there is none to drop. -/
theorem dropAnnotations_of_closing? (unclosed : ∀ before after,
    breakOn? annotationMark text = some (before, after) → closing? 0 after = none) :
    dropAnnotations text = text := by
  cases found : breakOn? annotationMark text with
  | none => exact dropAnnotations_of_none found
  | some halves => exact dropAnnotations_of_open found (unclosed _ _ found)

end Rounds

/-- The parentheses of a text, in order. -/
def parentheses (text : Text) : Text := text.filter fun letter => letter == '(' || letter == ')'

theorem parentheses_append (first second : Text) :
    parentheses (first ++ second) = parentheses first ++ parentheses second :=
  List.filter_append ..

/-- Only the parentheses of a text decide whether another one is closed in it. -/
theorem closing?_parentheses (depth : Nat) (text : Text) :
    closing? depth (parentheses text) = none ↔ closing? depth text = none := by
  induction text generalizing depth with
  | nil => rfl
  | cons letter text inductionHypothesis =>
      have kept (depth : Nat) : closing? depth (letter :: parentheses text) = none ↔
          closing? depth (letter :: text) = none := by
        rw [closing?.eq_def depth (letter :: parentheses text),
          closing?.eq_def depth (letter :: text)]
        dsimp only
        split
        · simpa using inductionHypothesis (depth + 1)
        · split
          · cases depth with
            | zero => simp
            | succ depth => simpa using inductionHypothesis depth
          · simpa using inductionHypothesis depth
      rw [parentheses, List.filter_cons]
      split
      · exact kept depth
      · rename_i other
        rw [Bool.or_eq_true, beq_iff_eq, beq_iff_eq, not_or] at other
        rw [closing?.eq_def depth (letter :: text)]
        dsimp only
        rw [if_neg other.1, if_neg other.2, Option.map_eq_none_iff]
        exact inductionHypothesis depth

theorem parentheses_cons_white {letter : Char} (white : isWhite letter = true) (text : Text) :
    parentheses (letter :: text) = parentheses text := by
  rw [parentheses, parentheses, List.filter_cons_of_neg]
  rw [Bool.or_eq_true, beq_iff_eq, beq_iff_eq]
  rintro (rfl | rfl) <;> exact absurd white (by decide)

/-- White space holds no parenthesis. -/
theorem parentheses_words (text : Text) : parentheses (words text).flatten = parentheses text := by
  rw [words, List.flatten_filter_not_isEmpty]
  induction text with
  | nil => rfl
  | cons letter text inductionHypothesis =>
      rw [List.splitOnP_cons_eq_if_modifyHead]
      split
      · rename_i white
        rw [List.flatten_cons, List.nil_append, inductionHypothesis, parentheses_cons_white white]
      · obtain ⟨piece, others, same⟩ :=
          List.exists_cons_of_ne_nil (List.splitOnP_ne_nil isWhite text)
        have head (rest : Text) : parentheses (letter :: rest) =
            parentheses [letter] ++ parentheses rest := parentheses_append [letter] rest
        rw [same] at inductionHypothesis ⊢
        rw [List.modifyHead_cons, List.flatten_cons, List.cons_append, head, ← List.flatten_cons,
          inductionHypothesis, ← head]

/-- The words that stand behind the first mark of an annotation, with the end of its own word. -/
def behindMark : List Text → Option Text
  | [] => none
  | word :: rest =>
      match breakOn? annotationMark word with
      | some (_, stop) => some (stop ++ rest.flatten)
      | none => behindMark rest

/-- The same parentheses stand behind the first mark in a text and in its words. -/
theorem parentheses_behindMark (text : Text) :
    (breakOn? annotationMark text).map (parentheses ∘ Prod.snd) =
      (behindMark (words text)).map parentheses := by
  have filled : annotationMark ≠ [] := by decide +kernel
  induction length : text.length using Nat.strong_induction_on generalizing text with
  | _ bound inductionHypothesis =>
  cases found : text.find? isWhite with
  | none =>
      have solid : ∀ letter ∈ text, isWhite letter = false := by
        simpa using List.find?_eq_none.1 found
      by_cases empty : text = []
      · subst empty
        rfl
      · rw [words_of_solid empty solid, behindMark]
        cases breakOn? annotationMark text with
        | none => rfl
        | some halves => simp
  | some letter =>
      obtain ⟨white, first, rest, rfl, before⟩ := List.find?_eq_some_iff_append.1 found
      have solid : ∀ letter ∈ first, isWhite letter = false := by simpa using before
      have later := inductionHypothesis rest.length (by simp [← length]; omega) rest rfl
      rw [words_append_white white]
      cases marked : breakOn? annotationMark first with
      | none =>
          have absent : letter ∉ annotationMark := by
            have marks : ∀ letter ∈ annotationMark, isWhite letter = false := by decide +kernel
            intro member
            rw [marks letter member] at white
            contradiction
          rw [breakOn?_append_cons filled absent ((breakOn?_eq_none_iff filled).1 marked),
            Option.map_map]
          by_cases empty : first = []
          · subst empty
            exact later
          · rw [words_of_solid empty solid, List.singleton_append, behindMark, marked]
            exact later
      | some halves =>
          have some : first ≠ [] := by
            rintro rfl
            rw [breakOn?, if_neg (by decide +kernel)] at marked
            contradiction
          rw [breakOn?_append_of_some filled marked, words_of_solid some solid,
            List.singleton_append, behindMark, marked]
          simp [parentheses_append, parentheses_cons_white white, parentheses_words]

/-- A specifier holds no parenthesis and no mark of an annotation. -/
theorem plain_of_mem_specifiers :
    ∀ word ∈ specifiers, parentheses word = [] ∧ breakOn? annotationMark word = none := by
  decide +kernel

/-- The words of a statement that are no specifiers. -/
def unspecifiedWords (entries : List Text) : List Text :=
  entries.filter fun word => !specifiers.contains word

theorem parentheses_unspecifiedWords (entries : List Text) :
    parentheses (unspecifiedWords entries).flatten = parentheses entries.flatten := by
  induction entries with
  | nil => rfl
  | cons word entries inductionHypothesis =>
      rw [unspecifiedWords, List.filter_cons, List.flatten_cons, parentheses_append]
      split
      · rw [List.flatten_cons, parentheses_append, ← unspecifiedWords, inductionHypothesis]
      · rename_i known
        rw [(plain_of_mem_specifiers word (by simpa using known)).1, List.nil_append]
        exact inductionHypothesis

theorem parentheses_behindMark_unspecifiedWords (entries : List Text) :
    (behindMark (unspecifiedWords entries)).map parentheses =
      (behindMark entries).map parentheses := by
  induction entries with
  | nil => rfl
  | cons word entries inductionHypothesis =>
      rw [unspecifiedWords, List.filter_cons, behindMark]
      split
      · rw [behindMark, ← unspecifiedWords]
        cases breakOn? annotationMark word with
        | none => exact inductionHypothesis
        | some halves =>
            simp [parentheses_append, parentheses_unspecifiedWords]
      · rename_i known
        rw [(plain_of_mem_specifiers word (by simpa using known)).2]
        exact inductionHypothesis

section Stripped

variable {text before after : Text}

theorem solid_of_mem_unspecifiedWords {word : Text}
    (member : word ∈ unspecifiedWords (words text)) : word ≠ [] ∧ ∀ letter ∈ word, isWhite letter = false :=
  have known := (List.mem_filter.1 member).1
  ⟨(mem_words.1 known).2, solid_of_mem_words known⟩

theorem words_withoutSpecifiers (text : Text) :
    words (withoutSpecifiers text) = unspecifiedWords (words (dropAnnotations text)) :=
  words_unwords fun _ => solid_of_mem_unspecifiedWords

/-- The first annotation that is left without specifiers is not closed. -/
theorem closing?_of_withoutSpecifiers
    (left : breakOn? annotationMark (withoutSpecifiers text) = some (before, after)) :
    closing? 0 after = none := by
  have same : (breakOn? annotationMark (withoutSpecifiers text)).map (parentheses ∘ Prod.snd) =
      (breakOn? annotationMark (dropAnnotations text)).map (parentheses ∘ Prod.snd) := by
    rw [parentheses_behindMark, parentheses_behindMark, words_withoutSpecifiers,
      parentheses_behindMark_unspecifiedWords]
  rw [left, eq_comm, Option.map_some, Option.map_eq_some_iff] at same
  obtain ⟨⟨front, back⟩, first, parens⟩ := same
  have unclosed := closing?_of_dropAnnotations first
  rwa [← closing?_parentheses, show parentheses back = parentheses after from parens,
    closing?_parentheses] at unclosed

theorem isStripped_withoutSpecifiers (text : Text) : IsStripped (withoutSpecifiers text) where
  spaced := by
    by_cases empty : unspecifiedWords (words (dropAnnotations text)) = []
    · exact .inl (congrArg unwords empty)
    · exact .inr (.unwords_of_solid empty fun _ => solid_of_mem_unspecifiedWords)
  unspecified word member := by
    rw [words_withoutSpecifiers] at member
    simpa using (List.mem_filter.1 member).2
  unclosed _ _ first :=
    closing?_eq_none_iff.1 (closing?_of_withoutSpecifiers (breakOn?_annotationMark_iff.2 first))

/-- A stripped statement has nothing to lose. -/
theorem IsStripped.withoutSpecifiers_eq (stripped : IsStripped text) :
    withoutSpecifiers text = text := by
  have kept : dropAnnotations text = text :=
    dropAnnotations_of_closing? fun _ _ found =>
      closing?_eq_none_iff.2 (stripped.unclosed _ _ (breakOn?_annotationMark_iff.1 found))
  have all : unspecifiedWords (words text) = words text :=
    List.filter_eq_self.2 fun word member => by simpa using stripped.unspecified word member
  change unwords (unspecifiedWords (words (dropAnnotations text))) = text
  rw [kept, all]
  rcases stripped.spaced with rfl | spaced
  · rfl
  · exact spaced.unwords_words

end Stripped

/-- The rounds that drop annotations come to an end from every statement, always at the same text.
What is left without specifiers has none of them, single spaces and no annotation that is closed,
and it is left as it is when its specifiers are dropped again. -/
theorem withoutSpecifiers_stripped (text : Text) :
    Acc (fun next text => Dropped text next) text ∧
      (∀ last, ReflTransGen Dropped text last ∧ (∀ next, ¬Dropped last next) ↔
        last = dropAnnotations text) ∧
      IsStripped (withoutSpecifiers text) ∧
      withoutSpecifiers (withoutSpecifiers text) = withoutSpecifiers text := by
  refine ⟨?_, fun last => ⟨fun ⟨run, done⟩ => eq_dropAnnotations run done, ?_⟩,
    isStripped_withoutSpecifiers text, (isStripped_withoutSpecifiers text).withoutSpecifiers_eq⟩
  · have shorter : Subrelation (fun next text => Dropped text next)
        (InvImage (· < ·) List.length) := fun dropped => dropped.length_lt
    exact shorter.accessible ((InvImage.wf List.length Nat.lt_wfRel.wf).apply text)
  · rintro rfl
    exact ⟨reaches_dropAnnotations text, not_dropped_dropAnnotations text⟩

example :
    withoutSpecifiers "extern __declspec(a(b)) int  static __declspec(c".toList =
      "int __declspec(c".toList := by decide +kernel

end DataSegment.Header
