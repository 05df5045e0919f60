import DataSegment.Proofs.Text.Words
import Mathlib.Data.List.TakeWhile
import Mathlib.Data.Option.Basic

namespace DataSegment.Text

/-- White space and nothing else, but not nothing. -/
structure IsBlank (run : Text) : Prop where
  filled : run ≠ []
  white : ∀ letter ∈ run, isWhite letter = true

theorem IsBlank.singleton {letter : Char} (white : isWhite letter = true) : IsBlank [letter] :=
  ⟨by simp, by simpa using white⟩

theorem IsBlank.append {first second : Text} (left : IsBlank first) (right : IsBlank second) :
    IsBlank (first ++ second) :=
  ⟨by simp [left.filled], List.forall_mem_append.2 ⟨left.white, right.white⟩⟩

/-- The second text has gaps where the first one has white space. All else is the same. -/
inductive Relaid (gap : Text → Prop) : Text → Text → Prop where
  | nil : Relaid gap [] []
  | solid {letter : Char} (solid : isWhite letter = false) {first second : Text}
      (rest : Relaid gap first second) : Relaid gap (letter :: first) (letter :: second)
  | blank {run other : Text} (blank : IsBlank run) (allowed : gap other) {first second : Text}
      (rest : Relaid gap first second) : Relaid gap (run ++ first) (other ++ second)

theorem Relaid.refl {gap : Text → Prop} (single : ∀ letter, isWhite letter = true → gap [letter])
    (text : Text) : Relaid gap text text := by
  induction text with
  | nil => exact .nil
  | cons letter text inductionHypothesis =>
      cases white : isWhite letter with
      | false => exact .solid white inductionHypothesis
      | true => exact .blank (.singleton white) (single letter white) inductionHypothesis

theorem Relaid.append {gap : Text → Prop} {first second third fourth : Text}
    (left : Relaid gap first second) (right : Relaid gap third fourth) :
    Relaid gap (first ++ third) (second ++ fourth) := by
  induction left with
  | nil => exact right
  | solid solid _ inductionHypothesis => exact .solid solid inductionHypothesis
  | blank blank other _ inductionHypothesis =>
      rw [List.append_assoc, List.append_assoc]
      exact .blank blank other inductionHypothesis

/-- Two texts agree up to the amount and the kind of white space. -/
abbrev Respaced : Text → Text → Prop := Relaid IsBlank

namespace Respaced

variable {first second : Text}

theorem refl (text : Text) : Respaced text text := Relaid.refl (fun _ => .singleton) text

theorem of_blank {run other : Text} (blank : IsBlank run) (also : IsBlank other) :
    Respaced run other := by
  have rest : Respaced (run ++ []) (other ++ []) := .blank blank also .nil
  rwa [List.append_nil, List.append_nil] at rest

theorem append_singleton (respaced : Respaced first second) (letter : Char) :
    Respaced (first ++ [letter]) (second ++ [letter]) :=
  respaced.append (refl [letter])

theorem eq_nil_iff (respaced : Respaced first second) : first = [] ↔ second = [] := by
  cases respaced with
  | nil => exact Iff.rfl
  | solid => simp
  | blank blank other => simp [blank.filled, other.filled]

theorem mem_of_solid {letter : Char} (solid : isWhite letter = false)
    (respaced : Respaced first second) (member : letter ∈ second) : letter ∈ first := by
  induction respaced with
  | nil => exact member
  | solid _ _ inductionHypothesis =>
      rcases List.mem_cons.1 member with rfl | member
      · exact List.mem_cons_self ..
      · exact List.mem_cons_of_mem _ (inductionHypothesis member)
  | blank _ other _ inductionHypothesis =>
      rcases List.mem_append.1 member with member | member
      · rw [other.white letter member] at solid
        contradiction
      · exact List.mem_append_right _ (inductionHypothesis member)

end Respaced

/-- A run of white space separates words. -/
theorem words_append_blank {run : Text} (blank : IsBlank run) (first rest : Text) :
    words (first ++ (run ++ rest)) = words first ++ words rest := by
  obtain ⟨letter, run, rfl⟩ := List.exists_cons_of_ne_nil blank.filled
  obtain ⟨white, others⟩ := List.forall_mem_cons.1 blank.white
  rw [List.cons_append, words_append_white white]
  congr 1
  clear blank
  induction run with
  | nil => rfl
  | cons other run inductionHypothesis =>
      obtain ⟨white, others⟩ := List.forall_mem_cons.1 others
      have parted := words_append_white white [] (run ++ rest)
      rw [words_nil, List.nil_append, List.nil_append] at parted
      rw [List.cons_append, parted, inductionHypothesis others]

/-- The words of a text do not depend on its spacing. Here `start` is the part of a word that was
read before. -/
theorem Respaced.words_append_eq {first second : Text} (respaced : Respaced first second)
    (start : Text) : words (start ++ first) = words (start ++ second) := by
  induction respaced generalizing start with
  | nil => rfl
  | @solid letter _ first second _ inductionHypothesis =>
      have moved := inductionHypothesis (start ++ [letter])
      rwa [List.append_assoc, List.append_assoc] at moved
  | blank blank other _ inductionHypothesis =>
      rw [words_append_blank blank, words_append_blank other]
      exact congrArg _ (inductionHypothesis [])

theorem Respaced.words_eq {first second : Text} (respaced : Respaced first second) :
    words first = words second := respaced.words_append_eq []

theorem words_white_append {run : Text} (white : ∀ letter ∈ run, isWhite letter = true)
    (rest : Text) : words (run ++ rest) = words rest := by
  cases run with
  | nil => rfl
  | cons letter run => simpa using words_append_blank ⟨by simp, white⟩ [] rest

theorem words_append_white_run {run : Text} (white : ∀ letter ∈ run, isWhite letter = true)
    (first : Text) : words (first ++ run) = words first := by
  cases run with
  | nil => rw [List.append_nil]
  | cons letter run => simpa using words_append_blank ⟨by simp, white⟩ first []

/-- White space at the ends of a text belongs to no word. -/
theorem words_trim (text : Text) : words (trim text) = words text := by
  have front (text : Text) : words (trimStart text) = words text := by
    have parts : text.takeWhile isWhite ++ trimStart text = text := List.takeWhile_append_dropWhile
    have white : ∀ letter ∈ text.takeWhile isWhite, isWhite letter = true :=
      fun _ => List.mem_takeWhile_imp
    have same := words_white_append white (trimStart text)
    rwa [parts, eq_comm] at same
  have back (text : Text) : words (trimEnd text) = words text := by
    have parts : trimEnd text ++ (text.reverse.takeWhile isWhite).reverse = text := by
      rw [trimEnd, ← List.reverse_append, List.takeWhile_append_dropWhile, List.reverse_reverse]
    have white : ∀ letter ∈ (text.reverse.takeWhile isWhite).reverse, isWhite letter = true :=
      fun letter member => List.mem_takeWhile_imp (List.mem_reverse.1 member)
    have same := words_append_white_run white (trimEnd text)
    rwa [parts, eq_comm] at same
  rw [trim, back, front]

/-- Two results are both missing, or are two halves each that agree up to spacing. -/
abbrev SameHalves : Option (Text × Text) → Option (Text × Text) → Prop :=
  Option.Rel fun halves others => Respaced halves.1 others.1 ∧ Respaced halves.2 others.2

theorem SameHalves.map_append {found other : Option (Text × Text)} {start begin : Text}
    (front : Respaced start begin) (same : SameHalves found other) :
    SameHalves (found.map fun halves => (start ++ halves.1, halves.2))
      (other.map fun halves => (begin ++ halves.1, halves.2)) := by
  cases same with
  | none => exact .none
  | some halves => exact .some ⟨front.append halves.1, halves.2⟩

theorem SameHalves.eq_none {other : Option (Text × Text)} (same : SameHalves none other) :
    other = none := by
  cases same
  rfl

theorem SameHalves.exists_some {other : Option (Text × Text)} {first second : Text}
    (same : SameHalves (some (first, second)) other) :
    ∃ third fourth, other = some (third, fourth) ∧ Respaced first third ∧
      Respaced second fourth := by
  cases same with
  | some halves => exact ⟨_, _, rfl, halves⟩

/-- What follows a pattern without white space does not depend on the spacing before it. -/
theorem Respaced.after? {pattern first second : Text}
    (solid : ∀ letter ∈ pattern, isWhite letter = false) (respaced : Respaced first second) :
    Option.Rel Respaced (Text.after? pattern first) (Text.after? pattern second) := by
  induction pattern generalizing first second with
  | nil => exact .some respaced
  | cons letter pattern inductionHypothesis =>
      obtain ⟨head, others⟩ := List.forall_mem_cons.1 solid
      cases respaced with
      | nil => exact .none
      | @solid other _ _ _ rest =>
          rw [Text.after?, Text.after?]
          split
          · exact inductionHypothesis others rest
          · exact .none
      | blank blank also =>
          have missing {run : Text} (blank : IsBlank run) (rest : Text) :
              Text.after? (letter :: pattern) (run ++ rest) = none := by
            obtain ⟨start, run, rfl⟩ := List.exists_cons_of_ne_nil blank.filled
            rw [List.cons_append, Text.after?, if_neg]
            rintro rfl
            rw [blank.white letter (List.mem_cons_self ..)] at head
            contradiction
          rw [missing blank, missing also]
          exact .none

theorem breakOn?_white_append {letter : Char} {pattern run : Text} (solid : isWhite letter = false)
    (white : ∀ letter ∈ run, isWhite letter = true) (rest : Text) :
    breakOn? (letter :: pattern) (run ++ rest) =
      (breakOn? (letter :: pattern) rest).map fun halves => (run ++ halves.1, halves.2) := by
  induction run with
  | nil => simp
  | cons start run inductionHypothesis =>
      obtain ⟨first, others⟩ := List.forall_mem_cons.1 white
      have missing : after? (letter :: pattern) (start :: (run ++ rest)) = none := by
        rw [after?, if_neg]
        rintro rfl
        rw [first] at solid
        contradiction
      rw [List.cons_append, breakOn?, missing, inductionHypothesis others, Option.map_map]
      rfl

/-- A pattern without white space is found in the same place whatever the spacing is. -/
theorem Respaced.breakOn? {pattern first second : Text} (filled : pattern ≠ [])
    (solid : ∀ letter ∈ pattern, isWhite letter = false) (respaced : Respaced first second) :
    SameHalves (Text.breakOn? pattern first) (Text.breakOn? pattern second) := by
  obtain ⟨letter, pattern, rfl⟩ := List.exists_cons_of_ne_nil filled
  have head := solid letter (List.mem_cons_self ..)
  induction respaced with
  | nil => exact .none
  | @solid start known first second rest inductionHypothesis =>
      have after := Respaced.after? solid (.solid known rest)
      rw [Text.breakOn?, Text.breakOn?]
      generalize Text.after? (letter :: pattern) (start :: first) = found at after
      generalize Text.after? (letter :: pattern) (start :: second) = other at after
      cases after with
      | none => exact inductionHypothesis.map_append (refl [start])
      | some same => exact .some ⟨.nil, same⟩
  | blank blank also _ inductionHypothesis =>
      rw [breakOn?_white_append head blank.white, breakOn?_white_append head also.white]
      exact inductionHypothesis.map_append (.of_blank blank also)

end DataSegment.Text
