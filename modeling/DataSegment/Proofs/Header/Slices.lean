import DataSegment.Proofs.Header.Automaton
import DataSegment.Proofs.Header.Specifiers
import DataSegment.Proofs.Header.Splitting
import DataSegment.Proofs.Text.Bytes

namespace DataSegment.Header.Sliced

open Relation Text Text.Unicode

/-- What follows a pair of one-byte letters at an offset. -/
def behindPair? (place : Nat) (line : Text) : Option { rest : Text // rest.length < line.length } :=
  match cut : slice? (place + 2) (size line) line with
  | none => none
  | some rest => some ⟨rest, length_lt_of_slice? cut⟩

/-- The offset of a line comment when no block comment starts in front of it. -/
def lineComment? (line : Text) : Option Nat :=
  match offset? ['/', '/'] line, offset? ['/', '*'] line with
  | some single, some block => if single < block then some single else none
  | single, none => single
  | none, some _ => none

/-- The code of a line and whether it ends inside a block comment. -/
def withoutComments (inside : Bool) (line : Text) : Option (Text × Bool) :=
  match inside with
  | true =>
      match offset? ['*', '/'] line with
      | none => some ([], true)
      | some stop => do
          let rest ← behindPair? stop line
          let code ← withoutComments false rest.1
          some (' ' :: code.1, code.2)
  | false =>
      match lineComment? line, offset? ['/', '*'] line with
      | some single, _ => (slice? 0 single line).map fun before => (before, false)
      | none, none => some (line, false)
      | none, some block => do
          let before ← slice? 0 block line
          let rest ← behindPair? block line
          let code ← withoutComments true rest.1
          some (before ++ code.1, code.2)
termination_by line.length
decreasing_by
  all_goals exact rest.2

/-- The file name that an include line gives in double quotes. -/
def includedFile? (line : Text) : Option (Option Text) :=
  match line with
  | '#' :: rest =>
      match after? "include".toList (trimStart rest) with
      | none => some none
      | some operand =>
          match trim operand with
          | '"' :: name =>
              match offset? ['"'] name with
              | none => some none
              | some stop => (slice? 0 stop name).map some
          | _ => some none
  | _ => some none

/-- The offset of the parenthesis that closes the first one. Here `depth` counts the parentheses
that are open, and `place` is the offset of the text. -/
def partnerFrom? (place : Nat) (depth : Int) : Text → Option Nat
  | [] => none
  | letter :: rest =>
      if letter = '(' then partnerFrom? (place + letter.utf8Size) (depth + 1) rest
      else if letter = ')' then
        if depth - 1 = 0 then some place
        else partnerFrom? (place + letter.utf8Size) (depth - 1) rest
      else partnerFrom? (place + letter.utf8Size) depth rest

/-- The offset of the partner of the parenthesis at an offset. -/
def partner? (opening : Nat) (text : Text) : Option (Option Nat) :=
  (slice? opening (size text) text).map fun rest => (partnerFrom? 0 0 rest).map (opening + ·)

/-- One round puts a space in the place of the first annotation. There is no next text when the
work is done. -/
def dropAnnotation? (text : Text) : Option (Option Text) :=
  match offset? annotationMark text with
  | none => some none
  | some start => do
      match ← partner? (start + size annotationMark.dropLast) text with
      | none => some none
      | some stop =>
          let before ← slice? 0 start text
          let _ ← slice? start (stop + 1) text
          let after ← slice? (stop + 1) (size text) text
          some (some (before ++ ' ' :: after))

/-- Cuts at the commas outside parentheses. The part that is open starts at `start`, and the rest
at `place`. -/
def splitFrom (text : Text) (start place : Nat) (depth : Int) : Text → Option (List Text)
  | [] => (slice? start (size text) text).map fun part => [part]
  | letter :: rest =>
      if letter = '(' then splitFrom text start (place + letter.utf8Size) (depth + 1) rest
      else if letter = ')' then splitFrom text start (place + letter.utf8Size) (depth - 1) rest
      else if letter = ',' ∧ depth = 0 then do
        let part ← slice? start place text
        let others ← splitFrom text (place + 1) (place + letter.utf8Size) depth rest
        some (part :: others)
      else splitFrom text start (place + letter.utf8Size) depth rest

section Lines

variable {line before rest : Text}

theorem behindPair?_of_breakOn? {letter next : Char} (narrow : size [letter, next] = 2)
    (found : breakOn? [letter, next] line = some (before, rest)) :
    ∃ shorter, behindPair? (size before) line = some ⟨rest, shorter⟩ := by
  obtain ⟨_, _, behind⟩ := slices_of_breakOn? found
  rw [narrow] at behind
  unfold behindPair?
  split
  · rename_i missing
    rw [behind] at missing
    contradiction
  · rename_i other cut
    obtain rfl := Option.some.inj (behind.symm.trans cut)
    exact ⟨length_lt_of_slice? cut, rfl⟩

/-- The code in front of a block comment, and the code of the rest. -/
theorem withoutComments_of_block {code : Text × Bool} (nearest : lineComment? line = none)
    (found : breakOn? ['/', '*'] line = some (before, rest))
    (later : withoutComments true rest = some code) :
    withoutComments false line = some (before ++ code.1, code.2) := by
  obtain ⟨place, front, _⟩ := slices_of_breakOn? found
  obtain ⟨shorter, behind⟩ := behindPair?_of_breakOn? rfl found
  rw [withoutComments, nearest, place]
  dsimp only
  rw [front, Option.bind_eq_bind, Option.bind_some, behind]
  dsimp only [Option.bind_eq_bind, Option.bind_some]
  rw [later]
  rfl

theorem withoutComments_of_line {after : Text} (nearest : lineComment? line = some (size before))
    (found : breakOn? ['/', '/'] line = some (before, after)) :
    withoutComments false line = some (before, false) := by
  obtain ⟨_, front, _⟩ := slices_of_breakOn? found
  rw [withoutComments, nearest]
  dsimp only
  rw [front]
  rfl

/-- Of the marks of two comments the one that stands first counts. -/
theorem lineComment?_of_breakOn? {after other : Text}
    (single : breakOn? ['/', '/'] line = some (before, after))
    (block : breakOn? ['/', '*'] line = some (other, rest)) :
    lineComment? line = if before.length < other.length then some (size before) else none := by
  have start : before <+: line := ⟨_, (breakOn?_pair_iff.1 single).1.symm⟩
  have startToo : other <+: line := ⟨_, (breakOn?_pair_iff.1 block).1.symm⟩
  rw [lineComment?, offset?_eq, offset?_eq, single, block]
  exact if_congr (size_lt_size_iff start startToo) rfl rfl

theorem withoutComments_present (inside : Bool) (line : Text) :
    withoutComments inside line = some (Header.withoutComments inside line) := by
  rw [← searched_eq]
  fun_induction searched inside line with
  | case1 line found =>
      rw [withoutComments, offset?_eq, found]
      rfl
  | case2 line before rest found shorter code inductionHypothesis =>
      obtain ⟨place, _⟩ := slices_of_breakOn? found
      obtain ⟨_, behind⟩ := behindPair?_of_breakOn? rfl found
      rw [withoutComments, place]
      dsimp only
      rw [behind, Option.bind_eq_bind, Option.bind_some]
      dsimp only
      rw [inductionHypothesis]
      rfl
  | case3 line found missing =>
      rw [withoutComments, lineComment?, offset?_eq, offset?_eq, found, missing]
      rfl
  | case4 line before after missing single =>
      have nearest : lineComment? line = some (size before) := by
        rw [lineComment?, offset?_eq, offset?_eq, missing, single]
        rfl
      exact withoutComments_of_line nearest single
  | case5 line before rest found missing shorter code inductionHypothesis =>
      have nearest : lineComment? line = none := by
        rw [lineComment?, offset?_eq, offset?_eq, found, missing]
        rfl
      exact withoutComments_of_block nearest found inductionHypothesis
  | case6 line before after other rest block single nearer =>
      have nearest := lineComment?_of_breakOn? single block
      rw [if_pos nearer] at nearest
      exact withoutComments_of_line nearest single
  | case7 line before after other rest block single farther shorter code inductionHypothesis =>
      have nearest := lineComment?_of_breakOn? single block
      rw [if_neg farther] at nearest
      exact withoutComments_of_block nearest block inductionHypothesis

theorem includedFile?_present (line : Text) :
    includedFile? line = some (Header.includedFile? line) := by
  unfold includedFile?
  split
  · rename_i rest
    rw [Header.includedFile?]
    cases after? "include".toList (trimStart rest) with
    | none => rfl
    | some operand =>
        by_cases quoted : ∃ name, trim operand = '"' :: name
        · obtain ⟨name, starts⟩ := quoted
          simp only [starts]
          cases found : breakOn? ['"'] name with
          | none =>
              rw [offset?_eq, found]
              rfl
          | some halves =>
              obtain ⟨place, front, _⟩ := slices_of_breakOn? found
              rw [place]
              dsimp only
              rw [front]
              rfl
        · have other (name : Text) : trim operand ≠ '"' :: name := fun same => quoted ⟨name, same⟩
          -- Both sides leave such an operand to their last case.
          simp only
  · rename_i other
    unfold Header.includedFile?
    split
    · rename_i rest
      exact absurd rfl (other rest)
    · rfl

end Lines

section Parentheses

variable {text before after : Text}

/-- The counting finds the same partner as the halves do. -/
theorem partnerFrom?_eq (place depth : Nat) (text : Text) :
    partnerFrom? place (depth + 1) text =
      (closing? depth text).map fun halves => place + size halves.1 := by
  induction text generalizing place depth with
  | nil => rfl
  | cons letter text inductionHypothesis =>
      have step (next : Nat) : partnerFrom? (place + letter.utf8Size) (next + 1) text =
          ((closing? next text).map (extendHalf letter)).map
            fun halves => place + size halves.1 := by
        rw [inductionHypothesis, Option.map_map]
        simp only [Function.comp_def, extendHalf, size_cons, Nat.add_assoc]
      rw [partnerFrom?, closing?.eq_def]
      dsimp only
      split
      · exact step (depth + 1)
      · split
        · rw [Int.add_sub_cancel]
          cases depth with
          | zero => rfl
          | succ depth =>
              rw [if_neg (by omega)]
              exact step depth
        · exact step depth

/-- The partner of a parenthesis in a text. -/
theorem partner?_eq (parts : text = before ++ '(' :: after) :
    partner? (size before) text =
      some ((closing? 0 after).map fun halves => size (before ++ '(' :: halves.1)) := by
  rw [parts, partner?, slice?_back, Option.map_some, partnerFrom?, if_pos rfl, Nat.zero_add]
  have counted := partnerFrom?_eq '('.utf8Size 0 after
  rw [Int.natCast_zero] at counted
  rw [counted, Option.map_map]
  simp only [Function.comp_def, size_append, size_cons]

/-- What stands between a parenthesis and its partner, and behind the partner, can be sliced. -/
theorem slices_of_closing? {inner rest : Text} (parts : text = before ++ '(' :: after)
    (closed : closing? 0 after = some (inner, rest)) :
    partner? (size before) text = some (some (size (before ++ '(' :: inner))) ∧
      slice? (size before + 1) (size (before ++ '(' :: inner)) text = some inner ∧
      slice? (size (before ++ '(' :: inner) + 1) (size text) text = some rest := by
  have whole : text = (before ++ ['(']) ++ (inner ++ ')' :: rest) := by
    rw [parts, eq_append_of_closing? closed, List.append_assoc, List.singleton_append]
  refine ⟨by rw [partner?_eq parts, closed, Option.map_some], ?_, ?_⟩
  · refine slice?_eq_some_iff.2 ⟨before ++ ['('], ')' :: rest, whole, size_append before ['('], ?_⟩
    rw [List.append_assoc, List.singleton_append]
  · have ending : size (before ++ '(' :: inner ++ [')']) = size (before ++ '(' :: inner) + 1 :=
      size_append (before ++ '(' :: inner) [')']
    refine slice?_eq_some_iff.2 ⟨before ++ '(' :: inner ++ [')'], [], ?_, ending, ?_⟩
    · simp [whole]
    · simp [whole]

/-- The parenthesis of an annotation ends its mark. -/
theorem opening_of_annotates (first : Annotates before after text) :
    text = before ++ annotationMark.dropLast ++ '(' :: after := by
  have mark : annotationMark = annotationMark.dropLast ++ ['('] := by decide +kernel
  rw [first.1, mark]
  simp

/-- A round can always be made, and it drops the first annotation that is closed. -/
theorem exists_dropAnnotation? (text : Text) :
    ∃ round, dropAnnotation? text = some round ∧ ∀ next, round = some next ↔ Dropped text next := by
  have last := not_dropped_dropAnnotations text
  unfold dropAnnotation?
  cases found : breakOn? annotationMark text with
  | none =>
      rw [dropAnnotations_of_none found] at last
      rw [offset?_eq, found]
      exact ⟨none, rfl, fun next => ⟨nofun, fun dropped => absurd dropped (last next)⟩⟩
  | some halves =>
      obtain ⟨before, after⟩ := halves
      obtain ⟨place, front, _⟩ := slices_of_breakOn? found
      have first := breakOn?_annotationMark_iff.1 found
      have parts := opening_of_annotates first
      rw [place]
      dsimp only
      rw [← size_append]
      cases closed : closing? 0 after with
      | none =>
          rw [dropAnnotations_of_open found closed] at last
          rw [partner?_eq parts, closed]
          exact ⟨none, rfl, fun next => ⟨nofun, fun dropped => absurd dropped (last next)⟩⟩
      | some halves =>
          obtain ⟨inner, rest⟩ := halves
          obtain ⟨partner, _, behind⟩ := slices_of_closing? parts closed
          obtain ⟨rfl, balanced⟩ := closing?_eq_some_iff.1 closed
          have dropped := Dropped.closed first balanced
          have annotation : slice? (size before)
              (size (before ++ annotationMark.dropLast ++ '(' :: inner) + 1) text =
                some (annotationMark.dropLast ++ '(' :: inner ++ [')']) := by
            refine slice?_eq_some_iff.2 ⟨before, rest, ?_, rfl, ?_⟩
            · rw [parts]
              simp
            · rw [← List.append_assoc before, ← List.append_assoc before]
              exact size_append_singleton _ ')'
          refine ⟨some (before ++ ' ' :: rest), ?_, fun next => ⟨?_, fun other => ?_⟩⟩
          · simp only [partner, front, annotation, behind, Option.bind_eq_bind, Option.bind_some]
          · rintro ⟨⟩
            exact dropped
          · rw [dropped_rightUnique dropped other]

theorem dropped_of_dropAnnotation? {next : Text} (round : dropAnnotation? text = some (some next)) :
    Dropped text next := by
  obtain ⟨_, same, leads⟩ := exists_dropAnnotation? text
  exact (leads next).1 (Option.some.inj (same.symm.trans round))

/-- Puts a space in the place of the first annotation as long as there is one that is closed. -/
def dropAnnotations (text : Text) : Option Text :=
  match round : dropAnnotation? text with
  | none => none
  | some none => some text
  | some (some next) =>
      have := (dropped_of_dropAnnotation? round).length_lt
      dropAnnotations next
termination_by text.length

theorem dropAnnotations_present (text : Text) :
    dropAnnotations text = some (Header.dropAnnotations text) := by
  fun_induction dropAnnotations text with
  | case1 text missing =>
      obtain ⟨_, same, _⟩ := exists_dropAnnotation? text
      rw [missing] at same
      contradiction
  | case2 text done =>
      obtain ⟨_, same, leads⟩ := exists_dropAnnotation? text
      obtain rfl := Option.some.inj (done.symm.trans same)
      rw [← eq_dropAnnotations .refl fun next dropped => nomatch (leads next).2 dropped]
  | case3 text next round shorter inductionHypothesis =>
      have dropped := dropped_of_dropAnnotation? round
      rw [inductionHypothesis, eq_dropAnnotations (.head dropped (reaches_dropAnnotations next))
        (not_dropped_dropAnnotations next)]

/-- The words of a statement that are no specifiers, with one space between them. -/
def withoutSpecifiers (text : Text) : Option Text :=
  (dropAnnotations text).map fun text => unwords (unspecifiedWords (words text))

theorem withoutSpecifiers_present (text : Text) :
    withoutSpecifiers text = some (Header.withoutSpecifiers text) := by
  rw [withoutSpecifiers, dropAnnotations_present]
  rfl

end Parentheses

section Commas

/-- No part is cut inside a character, however the parentheses are nested. -/
theorem splitFrom_eq {text before current rest : Text}
    (whole : text = before ++ (current ++ rest)) (depth : Int) :
    ∃ first others, splitSigned depth rest = first :: others ∧
      splitFrom text (size before) (size (before ++ current)) depth rest =
        some ((current ++ first) :: others) := by
  induction rest generalizing before current depth with
  | nil =>
      refine ⟨[], [], rfl, ?_⟩
      rw [whole, splitFrom, List.append_nil, slice?_back]
      rfl
  | cons letter rest inductionHypothesis =>
      have place : size (before ++ (current ++ [letter])) =
          size (before ++ current) + letter.utf8Size := by
        rw [← List.append_assoc, size_append_singleton]
      have joined (next : Int) : ∃ first others,
          extendPart letter (splitSigned next rest) = first :: others ∧
            splitFrom text (size before) (size (before ++ current) + letter.utf8Size) next rest =
              some ((current ++ first) :: others) := by
        have moved : text = before ++ ((current ++ [letter]) ++ rest) := by
          rw [whole, List.append_assoc, List.singleton_append]
        obtain ⟨first, others, parts, cut⟩ := inductionHypothesis moved next
        refine ⟨letter :: first, others, by rw [parts, extendPart], ?_⟩
        rw [← place, cut, List.append_assoc, List.singleton_append]
      rw [splitSigned, splitFrom]
      split
      · exact joined (depth + 1)
      · split
        · exact joined (depth - 1)
        · split
          · rename_i separates
            have moved : text = (before ++ (current ++ [letter])) ++ ([] ++ rest) := by
              rw [whole]
              simp
            obtain ⟨first, others, parts, cut⟩ := inductionHypothesis moved depth
            refine ⟨[], first :: others, by rw [parts], ?_⟩
            have here : slice? (size before) (size (before ++ current)) text = some current := by
              rw [whole, slice?_append]
            have comma : letter.utf8Size = 1 := congrArg Char.utf8Size separates.1
            rw [List.append_nil, place, List.nil_append, comma] at cut
            rw [here, comma, List.append_nil, Option.bind_eq_bind, Option.bind_some, cut]
            rfl
          · exact joined depth

theorem splitFrom_present {list : Text} (balanced : isBalanced 0 list = true) :
    splitFrom list 0 0 0 list = some (splitCommas 0 list) := by
  obtain ⟨_, _, signed, cut⟩ := @splitFrom_eq list [] [] list rfl 0
  obtain ⟨first, others, parts, splits⟩ := exists_splits balanced
  have same := splits.splitSigned_eq
  rw [Int.natCast_zero, signed] at same
  rw [parts, ← same]
  exact cut

end Commas

end DataSegment.Header.Sliced
