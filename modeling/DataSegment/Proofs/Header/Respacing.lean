import DataSegment.Proofs.Header.Concatenation
import DataSegment.Proofs.Header.Nesting
import DataSegment.Proofs.Text.Spacing

namespace DataSegment.Header

open Text

variable {first second : Text}

theorem closing?_white_append {run : Text} (white : ∀ letter ∈ run, isWhite letter = true)
    (depth : Nat) (rest : Text) :
    closing? depth (run ++ rest) =
      (closing? depth rest).map fun halves => (run ++ halves.1, halves.2) := by
  have plain : ∀ letter ∈ run, letter ≠ '(' ∧ letter ≠ ')' ∧ letter ≠ ',' := by
    intro letter member
    have known := white letter member
    refine ⟨?_, ?_, ?_⟩ <;> rintro rfl <;> exact absurd known (by decide)
  have passed := closing?_append (isNested_of_plain plain) depth rest
  rwa [Nat.add_zero] at passed

/-- The partner of a parenthesis is found in the same place whatever the spacing is. -/
theorem closing?_respaced (respaced : Respaced first second) (depth : Nat) :
    SameHalves (closing? depth first) (closing? depth second) := by
  induction respaced generalizing depth with
  | nil => exact .none
  | @solid letter known first second rest inductionHypothesis =>
      have extended (depth : Nat) : SameHalves ((closing? depth first).map (extendHalf letter))
          ((closing? depth second).map (extendHalf letter)) :=
        (inductionHypothesis depth).map_append (.refl [letter])
      rw [closing?.eq_def depth (letter :: first), closing?.eq_def depth (letter :: second)]
      dsimp only
      split
      · exact extended _
      · split
        · cases depth with
          | zero => exact .some ⟨.nil, rest⟩
          | succ depth => exact extended depth
        · exact extended depth
  | blank blank also _ inductionHypothesis =>
      rw [closing?_white_append blank.white, closing?_white_append also.white]
      exact (inductionHypothesis depth).map_append (.of_blank blank also)

/-- The mark in front of an annotation is found in the same place whatever the spacing is. -/
theorem annotation_respaced (respaced : Respaced first second) :
    SameHalves (breakOn? annotationMark first) (breakOn? annotationMark second) := by
  refine respaced.breakOn? ?_ ?_
  · decide +kernel
  · decide +kernel

section Annotations

variable {text before after inner rest : Text}

theorem dropAnnotations_of_none (missing : breakOn? annotationMark text = none) :
    dropAnnotations text = text := by
  rw [dropAnnotations]
  split
  · rfl
  · rename_i found
    rw [missing] at found
    contradiction

theorem dropAnnotations_of_open (found : breakOn? annotationMark text = some (before, after))
    (closed : closing? 0 after = none) : dropAnnotations text = text := by
  rw [dropAnnotations]
  split
  · rfl
  · rename_i same
    obtain ⟨rfl, rfl⟩ : before = _ ∧ after = _ := by simpa [same] using found.symm
    split
    · rfl
    · rename_i other
      rw [closed] at other
      contradiction

theorem dropAnnotations_of_closed (found : breakOn? annotationMark text = some (before, after))
    (closed : closing? 0 after = some (inner, rest)) :
    dropAnnotations text = before ++ ' ' :: dropAnnotations rest := by
  rw [dropAnnotations]
  split
  · rename_i missing
    rw [found] at missing
    contradiction
  · rename_i same
    obtain ⟨rfl, rfl⟩ : before = _ ∧ after = _ := by simpa [same] using found.symm
    split
    · rename_i other
      rw [closed] at other
      contradiction
    · rename_i other
      obtain ⟨rfl, rfl⟩ : inner = _ ∧ rest = _ := by simpa [other] using closed.symm
      rfl

end Annotations

/-- The same annotations are dropped whatever the spacing is. -/
theorem dropAnnotations_respaced (respaced : Respaced first second) :
    Respaced (dropAnnotations first) (dropAnnotations second) := by
  have halves := annotation_respaced respaced
  fun_induction dropAnnotations first generalizing second with
  | case1 text missing =>
      rw [missing] at halves
      rwa [dropAnnotations_of_none halves.eq_none]
  | case2 text before after found open' =>
      rw [found] at halves
      obtain ⟨front, back, also, _, behind⟩ := halves.exists_some
      have partners := closing?_respaced behind 0
      rw [open'] at partners
      rwa [dropAnnotations_of_open also partners.eq_none]
  | case3 text before after found inner rest closed smaller inductionHypothesis =>
      rw [found] at halves
      obtain ⟨front, back, also, ahead, behind⟩ := halves.exists_some
      have partners := closing?_respaced behind 0
      rw [closed] at partners
      obtain ⟨content, tail, ends, _, later⟩ := partners.exists_some
      rw [dropAnnotations_of_closed also ends]
      have space : Respaced [' '] [' '] := .refl _
      exact ahead.append (space.append (inductionHypothesis later (annotation_respaced later)))

/-- What is left of a statement does not depend on its spacing. -/
theorem withoutSpecifiers_respaced (respaced : Respaced first second) :
    withoutSpecifiers first = withoutSpecifiers second := by
  rw [withoutSpecifiers, withoutSpecifiers, (dropAnnotations_respaced respaced).words_eq]

theorem dropAnnotations_white_append {run : Text} (white : ∀ letter ∈ run, isWhite letter = true)
    (text : Text) : dropAnnotations (run ++ text) = run ++ dropAnnotations text := by
  have mark : ∃ letter pattern, annotationMark = letter :: pattern ∧ isWhite letter = false :=
    ⟨'_', "_declspec(".toList, by decide +kernel, by decide⟩
  obtain ⟨letter, pattern, mark, solid⟩ := mark
  have moved := @breakOn?_white_append letter pattern run solid white text
  rw [← mark] at moved
  cases found : breakOn? annotationMark text with
  | none =>
      rw [found] at moved
      rw [dropAnnotations_of_none found, dropAnnotations_of_none moved]
  | some halves =>
      rw [found] at moved
      cases closed : closing? 0 halves.2 with
      | none => rw [dropAnnotations_of_open found closed, dropAnnotations_of_open moved closed]
      | some parts =>
          rw [dropAnnotations_of_closed found closed, dropAnnotations_of_closed moved closed,
            List.append_assoc]

/-- White space in front of a statement does not belong to it. -/
theorem withoutSpecifiers_white_append {run : Text}
    (white : ∀ letter ∈ run, isWhite letter = true) (text : Text) :
    withoutSpecifiers (run ++ text) = withoutSpecifiers text := by
  rw [withoutSpecifiers, withoutSpecifiers, dropAnnotations_white_append white,
    words_white_append white]

/-- An event up to its place in the text and its spacing. -/
def Event.normal : Event → Event
  | .statement _ text => .statement 0 (withoutSpecifiers text)
  | .inclusion _ target => .inclusion 0 target
  | .openComment _ => .openComment 0
  | .openStatement _ text => .openStatement 0 (unwords (words text))

namespace Scan

variable {scan other : Scan}

/-- What is pending in two states differs in its spacing only, and as many braces are open. -/
structure Alike (scan other : Scan) : Prop where
  pending : Respaced scan.pending.reverse other.pending.reverse
  depth : scan.depth = other.depth

theorem Alike.isEmpty_eq (alike : scan.Alike other) :
    scan.pending.isEmpty = other.pending.isEmpty := by
  have same := alike.pending.eq_nil_iff
  rw [List.reverse_eq_nil_iff, List.reverse_eq_nil_iff] at same
  rw [Bool.eq_iff_iff, List.isEmpty_iff, List.isEmpty_iff, same]

theorem push_solid {letter : Char} (solid : isWhite letter = false) (line : Nat) (scan : Scan) :
    push line scan letter =
      { scan with
        depth :=
          if letter = '\x7b' then scan.depth + 1
          else if letter = '\x7d' then scan.depth - 1
          else scan.depth
        start := if scan.pending.isEmpty then line else scan.start
        pending := letter :: scan.pending } := by
  rw [push, solid, Bool.and_false, if_neg Bool.false_ne_true]

theorem Alike.push (alike : scan.Alike other) {letter : Char} (solid : isWhite letter = false)
    (line number : Nat) : (push line scan letter).Alike (push number other letter) := by
  rw [push_solid solid, push_solid solid, alike.depth]
  refine ⟨?_, rfl⟩
  simpa using alike.pending.append_singleton letter

/-- White space belongs to a statement that has begun. -/
def absorb (scan : Scan) (run : Text) : Scan :=
  if scan.pending.isEmpty then scan else { scan with pending := run.reverse ++ scan.pending }

theorem readCode_white_append (line : Nat) (scan : Scan) {run : Text}
    (white : ∀ letter ∈ run, isWhite letter = true) (rest : Text) :
    readCode line scan (run ++ rest) = readCode line (scan.absorb run) rest := by
  induction run generalizing scan with
  | nil =>
      have same : scan.absorb [] = scan := by
        unfold absorb
        split <;> rfl
      rw [same, List.nil_append]
  | cons letter run inductionHypothesis =>
      obtain ⟨first, others⟩ := List.forall_mem_cons.1 white
      have pushed : (push line scan letter).absorb run = scan.absorb (letter :: run) := by
        have opens : letter ≠ '\x7b' := by
          rintro rfl
          exact absurd first (by decide)
        have closes : letter ≠ '\x7d' := by
          rintro rfl
          exact absurd first (by decide)
        cases empty : scan.pending with
        | nil => simp [Scan.push, absorb, empty, first]
        | cons => simp [Scan.push, absorb, empty, opens, closes]
      have ends : letter ≠ ';' := by
        rintro rfl
        exact absurd first (by decide)
      rw [List.cons_append, readCode, if_neg (by simp [ends]), inductionHypothesis _ others, pushed]

theorem Alike.absorb (alike : scan.Alike other) {run also : Text} (blank : IsBlank run)
    (second : IsBlank also) : (scan.absorb run).Alike (other.absorb also) := by
  rw [Scan.absorb, Scan.absorb, alike.isEmpty_eq]
  split
  · exact alike
  · refine ⟨?_, alike.depth⟩
    simpa using alike.pending.append (Respaced.of_blank blank second)

/-- Code is read alike whatever its spacing is. -/
theorem Alike.readCode (alike : scan.Alike other) (respaced : Respaced first second)
    (line number : Nat) :
    (readCode line scan first).1.map Event.normal =
        (readCode number other second).1.map Event.normal ∧
      (readCode line scan first).2.Alike (readCode number other second).2 := by
  induction respaced generalizing scan other with
  | nil => exact ⟨rfl, alike⟩
  | @solid letter solid first second _ inductionHypothesis =>
      -- A semicolon ends both statements or neither, since as many braces are open.
      by_cases ends : letter = ';' ∧ scan.depth = 0
      · have also : letter = ';' ∧ other.depth = 0 := alike.depth ▸ ends
        have empty : Alike { scan with pending := [] } { other with pending := [] } :=
          ⟨.nil, alike.depth⟩
        obtain ⟨events, state⟩ := inductionHypothesis empty
        rw [Scan.readCode, Scan.readCode, if_pos ends, if_pos also]
        refine ⟨?_, state⟩
        rw [List.map_cons, List.map_cons, events, Event.normal, Event.normal,
          withoutSpecifiers_respaced alike.pending]
      · have also : ¬(letter = ';' ∧ other.depth = 0) := alike.depth ▸ ends
        rw [Scan.readCode, Scan.readCode, if_neg ends, if_neg also]
        exact inductionHypothesis (alike.push solid line number)
  | blank blank also _ inductionHypothesis =>
      rw [readCode_white_append line scan blank.white,
        readCode_white_append number other also.white]
      exact inductionHypothesis (alike.absorb blank also)

theorem Alike.finish (alike : scan.Alike other) (outside : scan.inside = false)
    (also : other.inside = false) :
    scan.finish.map Event.normal = other.finish.map Event.normal := by
  rw [Scan.finish, Scan.finish, outside, also, alike.isEmpty_eq]
  split
  · contradiction
  · split
    · rfl
    · have same : words (trim scan.pending.reverse) = words (trim other.pending.reverse) := by
        rw [words_trim, words_trim, alike.pending.words_eq]
      simp [Event.normal, same]

end Scan

/-- An error up to its line and to the spacing of the text that it quotes. -/
def Error.normal : Error → Error
  | .unknownRegister file _ name => .unknownRegister file 0 name
  | .malformed file _ text => .malformed file 0 (unwords (words text))
  | .openComment file _ => .openComment file 0
  | .includeDepth file _ target => .includeDepth file 0 target
  | .unreadable file => .unreadable file

namespace Database

variable {file : Text} {follow : Follow}

/-- Files are followed alike from any line. -/
def FollowsAnywhere (follow : Follow) : Prop :=
  ∀ line number target database,
    (follow line target database).mapError Error.normal =
      (follow number target database).mapError Error.normal

theorem followsAnywhere_followFrom (read : Text → Option (List UInt8)) (allowed : Nat)
    (file directory : Text) : FollowsAnywhere (followFrom read allowed file directory) := by
  intro line number target database
  cases allowed with
  | zero => rfl
  | succ allowed => rfl

/-- Events that differ in their place and their spacing declare the same. -/
theorem declare_normal (follows : FollowsAnywhere follow) {event other : Event}
    (same : event.normal = other.normal) (database : Database) :
    (declare file follow database event).mapError Error.normal =
      (declare file follow database other).mapError Error.normal := by
  cases event with
  | statement line text =>
      cases other with
      | statement number second =>
          obtain same : withoutSpecifiers text = withoutSpecifiers second := by
            simpa [Event.normal] using same
          rw [declare, declare, same]
          split
          · rename_i fault _
            cases fault <;> rfl
          · rfl
          · rfl
      | inclusion | openComment | openStatement => simp [Event.normal] at same
  | inclusion line target =>
      cases other with
      | inclusion number second =>
          obtain rfl : target = second := by simpa [Event.normal] using same
          exact follows line number target database
      | statement | openComment | openStatement => simp [Event.normal] at same
  | openComment line =>
      cases other with
      | openComment number => rfl
      | statement | inclusion | openStatement => simp [Event.normal] at same
  | openStatement line text =>
      cases other with
      | openStatement number second =>
          obtain same : unwords (words text) = unwords (words second) := by
            simpa [Event.normal] using same
          exact congrArg (fun text => Except.error (Error.malformed file 0 text)) same
      | statement | inclusion | openComment => simp [Event.normal] at same

theorem foldlM_declare_normal (follows : FollowsAnywhere follow) {events others : List Event}
    (same : events.map Event.normal = others.map Event.normal) (database : Database) :
    (events.foldlM (declare file follow) database).mapError Error.normal =
      (others.foldlM (declare file follow) database).mapError Error.normal := by
  induction events generalizing others database with
  | nil =>
      obtain rfl : others = [] := by simpa using same.symm
      rfl
  | cons event events inductionHypothesis =>
      obtain _ | ⟨other, others⟩ := others
      · simp at same
      · obtain ⟨first, rest⟩ := List.cons.inj same
        have step := @declare_normal file follow follows event other first database
        rw [List.foldlM_cons, List.foldlM_cons]
        cases left : declare file follow database event with
        | error failure =>
            cases right : declare file follow database other with
            | error reason =>
                rw [left, right] at step
                exact step
            | ok =>
                rw [left, right] at step
                contradiction
        | ok next =>
            cases right : declare file follow database other with
            | error =>
                rw [left, right] at step
                contradiction
            | ok later =>
                rw [left, right] at step
                obtain rfl : next = later := by simpa [Except.mapError] using step
                exact inductionHypothesis rest next

/-- Texts with the same events up to place and spacing declare the same. -/
theorem readText_normal {first second : Text}
    (same : (events first).map Event.normal = (events second).map Event.normal)
    (read : Text → Option (List UInt8)) (allowed : Nat) (file directory : Text)
    (database : Database) :
    (readText read allowed file directory first database).mapError Error.normal =
      (readText read allowed file directory second database).mapError Error.normal := by
  rw [readText_eq, readText_eq]
  exact foldlM_declare_normal (followsAnywhere_followFrom read allowed file directory) same database

end Database

end DataSegment.Header
