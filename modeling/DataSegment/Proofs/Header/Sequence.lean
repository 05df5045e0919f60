import DataSegment.Header.Scan
import DataSegment.Proofs.Text.Lines
import DataSegment.Proofs.Text.Parts

namespace DataSegment.Header

open Text

/-- A carriage return at the end of a line ends its code, or is in a comment. -/
theorem withoutComments_carriage (inside : Bool) (text : Text) :
    ∃ tail, (tail = [] ∨ tail = ['\r']) ∧
      withoutComments inside (text ++ ['\r']) =
        ((withoutComments inside text).1 ++ tail, (withoutComments inside text).2) := by
  fun_induction withoutComments inside text with
  | case1 inside =>
      cases inside with
      | false => exact ⟨['\r'], .inr rfl, rfl⟩
      | true => exact ⟨[], .inl rfl, rfl⟩
  | case2 inside letter =>
      cases inside with
      | false => exact ⟨['\r'], .inr rfl, by simp [withoutComments]⟩
      | true => exact ⟨[], .inl rfl, by simp [withoutComments]⟩
  | case3 letter next rest closes code inductionHypothesis =>
      obtain ⟨tail, carriage, same⟩ := inductionHypothesis
      refine ⟨tail, carriage, ?_⟩
      rw [List.cons_append, List.cons_append, withoutComments, if_pos rfl, if_pos closes, same]
      rfl
  | case4 letter next rest goes inductionHypothesis =>
      obtain ⟨tail, carriage, same⟩ := inductionHypothesis
      refine ⟨tail, carriage, ?_⟩
      rw [List.cons_append, List.cons_append, withoutComments, if_pos rfl, if_neg goes,
        ← List.cons_append, same]
  | case5 inside letter next rest outside line =>
      refine ⟨[], .inl rfl, ?_⟩
      rw [List.cons_append, List.cons_append, withoutComments, if_neg outside, if_pos line]
      rfl
  | case6 inside letter next rest outside line block inductionHypothesis =>
      obtain ⟨tail, carriage, same⟩ := inductionHypothesis
      refine ⟨tail, carriage, ?_⟩
      rw [List.cons_append, List.cons_append, withoutComments, if_neg outside, if_neg line,
        if_pos block, same]
  | case7 inside letter next rest outside line block code inductionHypothesis =>
      obtain ⟨tail, carriage, same⟩ := inductionHypothesis
      refine ⟨tail, carriage, ?_⟩
      rw [List.cons_append, List.cons_append, withoutComments, if_neg outside, if_neg line,
        if_neg block, ← List.cons_append, same]
      rfl

namespace Scan

variable {scan : Scan} {line : Nat}

theorem finish_eq_nil_iff : scan.finish = [] ↔ scan.inside = false ∧ scan.pending = [] := by
  unfold finish
  split
  · rename_i inside
    simp [inside]
  · rename_i outside
    split
    · rename_i empty
      simpa [outside] using empty
    · rename_i filled
      simpa [outside] using filled

/-- White space before a statement changes nothing. -/
theorem push_white (empty : scan.pending = []) {letter : Char} (white : isWhite letter = true) :
    push line scan letter = scan := by
  rw [push, empty, white]
  rfl

/-- A statement that has begun goes on. -/
theorem pending_of_push {letter : Char} (empty : (push line scan letter).pending = []) :
    scan.pending = [] := by
  unfold push at empty
  split at empty
  · exact empty
  · contradiction

/-- A character that ends no statement is put behind what was read. -/
theorem readCode_append_singleton {code : Text} {letter : Char}
    (goes : ¬(letter = ';' ∧ (readCode line scan code).2.depth = 0)) :
    readCode line scan (code ++ [letter]) =
      ((readCode line scan code).1, push line (readCode line scan code).2 letter) := by
  induction code generalizing scan with
  | nil =>
      have open' : ¬(letter = ';' ∧ scan.depth = 0) := goes
      change readCode line scan [letter] = ([], push line scan letter)
      rw [readCode, if_neg open', readCode]
  | cons other code inductionHypothesis =>
      rw [readCode] at goes
      rw [List.cons_append, readCode, readCode]
      split at goes
      · rename_i ends
        rw [if_pos ends, if_pos ends, inductionHypothesis goes]
      · rename_i open'
        rw [if_neg open', if_neg open', inductionHypothesis goes]

theorem isDirective_carriage (scan : Scan) (code : Text) :
    scan.isDirective (code ++ ['\r']) = scan.isDirective code := by
  rw [isDirective, isDirective, head?_trimStart_append_white (by decide)]

/-- The state behind the comments of a line. -/
def enter (line : Nat) (scan : Scan) (inside : Bool) : Scan :=
  { scan with
    inside := inside
    opened := if !scan.inside && inside then line else scan.opened }

/-- Reads what the comments leave of a line. -/
def readStripped (line : Nat) (scan : Scan) (code : Text) : List Event × Scan :=
  if scan.isDirective code then
    (((includedFile? (trim code)).map (Event.inclusion line)).toList, scan)
  else ((readCode line scan code).1, push line (readCode line scan code).2 ' ')

theorem readLine_eq (line : Nat) (scan : Scan) (raw : Text) :
    scan.readLine line raw =
      readStripped line (enter line scan (withoutComments scan.inside raw).2)
        (withoutComments scan.inside raw).1 := rfl

theorem readStripped_carriage {code : Text}
    (empty : (readStripped line scan (code ++ ['\r'])).2.pending = []) :
    readStripped line scan (code ++ ['\r']) = readStripped line scan code := by
  unfold readStripped at empty ⊢
  rw [isDirective_carriage] at empty ⊢
  split
  · rw [trim_append_white (by decide)]
  · rename_i code
    rw [if_neg code, readCode_append_singleton (by simp)] at empty
    have begun := pending_of_push (pending_of_push empty)
    rw [readCode_append_singleton (by simp), push_white begun (by decide)]

/-- A carriage return at the end of a line matters only to a statement that goes on. -/
theorem readLine_carriage {text : Text}
    (empty : (scan.readLine line (text ++ ['\r'])).2.pending = []) :
    scan.readLine line (text ++ ['\r']) = scan.readLine line text := by
  obtain ⟨tail, carriage, same⟩ := withoutComments_carriage scan.inside text
  rw [readLine_eq, same] at empty ⊢
  rw [readLine_eq]
  rcases carriage with rfl | rfl
  · rw [List.append_nil]
  · exact readStripped_carriage empty

theorem readLine_nil (outside : scan.inside = false) (empty : scan.pending = []) :
    scan.readLine line [] = ([], scan) := by
  obtain ⟨pending, start, depth, inside, opened⟩ := scan
  obtain rfl : inside = false := outside
  obtain rfl : pending = [] := empty
  rfl

theorem readLines_append (line : Nat) (scan : Scan) (first second : List Text) :
    readLines line scan (first ++ second) =
      ((readLines line scan first).1 ++
          (readLines (line + first.length) (readLines line scan first).2 second).1,
        (readLines (line + first.length) (readLines line scan first).2 second).2) := by
  induction first generalizing line scan with
  | nil => simp [readLines]
  | cons raw first inductionHypothesis =>
      rw [List.cons_append, readLines, readLines, inductionHypothesis]
      simp only [List.append_assoc, List.length_cons, Nat.add_assoc, Nat.add_comm 1]

/-- The line feed behind lines that are complete changes nothing. -/
theorem readLines_of_ends {open' closed : List Text} (ends : Ends open' closed)
    (complete : (readLines line scan open').2.finish = []) :
    readLines line scan closed = readLines line scan open' := by
  obtain ⟨outside, empty⟩ := finish_eq_nil_iff.1 complete
  cases ends with
  | blank =>
      rw [readLines_append]
      simp only [readLines, readLine_nil outside empty, List.append_nil]
  | same => rfl
  | carriage front last =>
      rw [readLines_append] at empty ⊢
      rw [readLines_append]
      simp only [readLines] at empty ⊢
      rw [readLine_carriage empty]

/-- Between two statements no brace is open. -/
def Balanced (scan : Scan) : Prop := scan.pending = [] → scan.depth = 0

theorem Balanced.push (balanced : scan.Balanced) (line : Nat) (letter : Char) :
    (push line scan letter).Balanced := by
  unfold Scan.push
  split
  · exact balanced
  · intro empty
    contradiction

/-- A statement ends only where no brace is open. -/
theorem Balanced.readCode (balanced : scan.Balanced) (line : Nat) (code : Text) :
    (readCode line scan code).2.Balanced := by
  induction code generalizing scan with
  | nil => exact balanced
  | cons letter code inductionHypothesis =>
      rw [Scan.readCode]
      split
      · rename_i ends
        exact inductionHypothesis fun _ => ends.2
      · exact inductionHypothesis (balanced.push line letter)

theorem Balanced.readLine (balanced : scan.Balanced) (line : Nat) (raw : Text) :
    (scan.readLine line raw).2.Balanced := by
  rw [readLine_eq, readStripped]
  split
  · exact balanced
  · apply Balanced.push
    apply Balanced.readCode
    exact balanced

theorem Balanced.readLines (balanced : scan.Balanced) (line : Nat) (lines : List Text) :
    (readLines line scan lines).2.Balanced := by
  induction lines generalizing line scan with
  | nil => exact balanced
  | cons raw lines inductionHypothesis => exact inductionHypothesis (balanced.readLine line raw) _

/-- No comment, statement or brace is open. -/
structure Neutral (scan : Scan) : Prop where
  outside : scan.inside = false
  empty : scan.pending = []
  level : scan.depth = 0

theorem Balanced.neutral (balanced : scan.Balanced) (complete : scan.finish = []) :
    scan.Neutral := by
  obtain ⟨outside, empty⟩ := finish_eq_nil_iff.1 complete
  exact ⟨outside, empty, balanced empty⟩

end Scan

/-- An event without its place in the text. -/
def Event.unplaced : Event → Event
  | .statement _ text => .statement 0 text
  | .inclusion _ target => .inclusion 0 target
  | .openComment _ => .openComment 0
  | .openStatement _ text => .openStatement 0 text

namespace Scan

variable {scan : Scan}

/-- A state without the places where its statement and its comment start. -/
def unplaced (scan : Scan) : Scan := { scan with start := 0, opened := 0 }

theorem Neutral.unplaced_eq (neutral : scan.Neutral) : scan.unplaced = initial.unplaced := by
  obtain ⟨pending, start, depth, inside, opened⟩ := scan
  obtain ⟨rfl, rfl, rfl⟩ := neutral
  rfl

theorem unplaced_push (line : Nat) (scan : Scan) (letter : Char) :
    (push line scan letter).unplaced = push 0 scan.unplaced letter := by
  unfold push unplaced
  dsimp only
  split
  · rfl
  · split <;> rfl

theorem unplaced_readCode (line : Nat) (scan : Scan) (code : Text) :
    (readCode line scan code).1.map Event.unplaced = (readCode 0 scan.unplaced code).1 ∧
      (readCode line scan code).2.unplaced = (readCode 0 scan.unplaced code).2 := by
  induction code generalizing scan with
  | nil => exact ⟨rfl, rfl⟩
  | cons letter code inductionHypothesis =>
      have depth : scan.unplaced.depth = scan.depth := rfl
      rw [readCode, readCode, depth]
      split
      · obtain ⟨events, state⟩ := inductionHypothesis { scan with pending := [] }
        exact ⟨congrArg _ events, state⟩
      · rw [← unplaced_push line]
        exact inductionHypothesis _

theorem unplaced_enter (line : Nat) (scan : Scan) (inside : Bool) :
    (enter line scan inside).unplaced = enter 0 scan.unplaced inside := by
  unfold enter unplaced
  dsimp only
  split <;> rfl

theorem unplaced_readStripped (line : Nat) (scan : Scan) (code : Text) :
    (readStripped line scan code).1.map Event.unplaced =
        (readStripped 0 scan.unplaced code).1 ∧
      (readStripped line scan code).2.unplaced = (readStripped 0 scan.unplaced code).2 := by
  have directive : scan.unplaced.isDirective code = scan.isDirective code := rfl
  rw [readStripped, readStripped, directive]
  split
  · cases includedFile? (trim code) <;> exact ⟨rfl, rfl⟩
  · obtain ⟨events, state⟩ := unplaced_readCode line scan code
    refine ⟨events, ?_⟩
    rw [unplaced_push, state]

theorem unplaced_readLine (line : Nat) (scan : Scan) (raw : Text) :
    (scan.readLine line raw).1.map Event.unplaced = (scan.unplaced.readLine 0 raw).1 ∧
      (scan.readLine line raw).2.unplaced = (scan.unplaced.readLine 0 raw).2 := by
  rw [readLine_eq, readLine_eq, ← unplaced_enter line]
  exact unplaced_readStripped _ _ _

/-- What the lines of a text hold does not depend on where the text starts. -/
theorem readLines_congr {other : Scan} (same : scan.unplaced = other.unplaced)
    (line number : Nat) (lines : List Text) :
    (readLines line scan lines).1.map Event.unplaced =
        (readLines number other lines).1.map Event.unplaced ∧
      (readLines line scan lines).2.unplaced = (readLines number other lines).2.unplaced := by
  induction lines generalizing scan other line number with
  | nil => exact ⟨rfl, same⟩
  | cons raw lines inductionHypothesis =>
      obtain ⟨first, state⟩ := unplaced_readLine line scan raw
      obtain ⟨otherFirst, otherState⟩ := unplaced_readLine number other raw
      rw [same] at first state
      obtain ⟨later, final⟩ :=
        inductionHypothesis (state.trans otherState.symm) (line + 1) (number + 1)
      rw [readLines, readLines, List.map_append, List.map_append, later, first, otherFirst]
      exact ⟨rfl, final⟩

theorem unplaced_finish (scan : Scan) :
    scan.finish.map Event.unplaced = scan.unplaced.finish := by
  unfold finish
  have inside : scan.unplaced.inside = scan.inside := rfl
  have pending : scan.unplaced.pending = scan.pending := rfl
  rw [inside, pending]
  split
  · rfl
  · split <;> rfl

/-- The state at the end of a header text. -/
def final (source : Text) : Scan := (initial.readLines 1 (lines source)).2

theorem balanced_final (source : Text) : (final source).Balanced := by
  apply Balanced.readLines
  exact fun _ => rfl

end Scan

theorem events_of_complete {source : Text} (complete : (Scan.final source).finish = []) :
    events source = (Scan.initial.readLines 1 (lines source)).1 := by
  change _ ++ (Scan.final source).finish = _
  rw [complete, List.append_nil]

/-- The events of a complete text come before those of the text on the lines behind it. -/
theorem events_append {first : Text} (complete : (Scan.final first).finish = [])
    (second : Text) :
    (events (first ++ '\n' :: second)).map Event.unplaced =
      (events first ++ events second).map Event.unplaced := by
  have neutral : (Scan.initial.readLines 1 (lines first)).2.Neutral :=
    (Scan.balanced_final first).neutral complete
  have read : Scan.initial.readLines 1 (lines (first ++ ['\n'])) =
      Scan.initial.readLines 1 (lines first) := Scan.readLines_of_ends (ends_lines first) complete
  obtain ⟨later, state⟩ := Scan.readLines_congr neutral.unplaced_eq
    (1 + (lines (first ++ ['\n'])).length) 1 (lines second)
  have finish := congrArg Scan.finish state
  rw [← Scan.unplaced_finish, ← Scan.unplaced_finish] at finish
  rw [events_of_complete complete, events, lines_append_newline, Scan.readLines_append, read,
    events]
  simp only [List.map_append, List.append_assoc, later, finish]

end DataSegment.Header
