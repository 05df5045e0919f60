import Mathlib.Logic.Relation
import DataSegment.Proofs.Conversion.Translation
import DataSegment.Proofs.Listing.Line

namespace DataSegment

open Assembly Listing

namespace Listing

/-- The second word of a line, as it is read where a segment can start: without literals, and no
comma may stand between the first two words. -/
def secondWord? (line : Text) : Option Text :=
  if hasNoWord line then none
  else
    let rest := (firstWord false line).2
    if hasNoWord rest then none else some (firstWord false rest).1.text

/-- The second word alone tells whether a line starts a segment. -/
theorem segmentName?_eq_none {line : Text} :
    segmentName? line = none ↔ secondWord? line ≠ some "segment".toList := by
  unfold segmentName? secondWord?
  split
  · simp
  · dsimp only
    split
    · simp
    · split
      · rename_i keyword
        simp [keyword]
      · rename_i other
        simpa using other

theorem segmentName?_of_hasNoWord {line : Text} (blank : hasNoWord line = true) :
    segmentName? line = none := by
  rw [segmentName?, if_pos blank]

theorem closes_of_hasNoWord {line : Text} (blank : hasNoWord line = true) :
    closes line = false := by
  rw [closes, keptWords_eq_nil.2 blank]

end Listing

namespace Settings

/-- A segment that is not skipped leads inside, the line that closes it leads outside again. -/
def positionAfterLine (settings : Settings) : Position → Text → Position
  | .outside, line => if settings.opens line then .inside else .outside
  | .inside, line => if closes line then .outside else .inside

def positionAfter (settings : Settings) (position : Position) (lines : List Text) : Position :=
  lines.foldl settings.positionAfterLine position

end Settings

/-- A change of one line of a listing that says nothing: a line without words is put in, a comment
is put behind a line, or a line that starts no segment takes the place of another one. Such lines
are exchanged where a segment is looked for: before the first one, behind the line that closes one,
and also inside one that is skipped. -/
inductive Edit (settings : Settings) : List Text → List Text → Prop where
  | insert {line : Text} (blank : hasNoWord line = true) (front back : List Text) :
      Edit settings (front ++ back) (front ++ line :: back)
  | comment {line tail : Text} (closed : LastWordClosed line) (comment : IsComment tail)
      (front back : List Text) :
      Edit settings (front ++ line :: back) (front ++ (line ++ tail) :: back)
  | replace {front : List Text} {line other : Text}
      (outside : settings.positionAfter .outside front = .outside)
      (plain : secondWord? line ≠ some "segment".toList)
      (plainToo : secondWord? other ≠ some "segment".toList) (back : List Text) :
      Edit settings (front ++ line :: back) (front ++ other :: back)

namespace Reading

/-- Two readings come to the same when they give the same label, and the same output or cause. -/
structure Alike (reading other : Reading) : Prop where
  label : reading.label = other.label
  result : reading.result = other.result

/-- A reading that adds nothing. -/
structure Idle (reading : Reading) (position : Position) : Prop where
  label : reading.label = none
  result : reading.result = .ok (position, [])

end Reading

/-- What the readings of a listing come to. -/
structure Summary where
  output : List Output
  labels : List Text
  cause : Option Cause

namespace Summary

def ofReadings (readings : List Reading) : Summary :=
  ⟨readings.flatMap Reading.output, readings.filterMap Reading.label,
    readings.findSome? Reading.cause?⟩

theorem cons_idle {reading : Reading} {position : Position} (idle : reading.Idle position)
    (rest : List Reading) : ofReadings (reading :: rest) = ofReadings rest := by
  have output : reading.output = [] := by rw [Reading.output, idle.result]
  have passes : reading.cause? = none := by rw [Reading.cause?, idle.result]
  simp [ofReadings, output, passes, idle.label]

theorem cons_congr {reading other : Reading} (alike : reading.Alike other)
    {rest others : List Reading} (same : ofReadings rest = ofReadings others) :
    ofReadings (reading :: rest) = ofReadings (other :: others) := by
  have output : reading.output = other.output := by
    rw [Reading.output, alike.result, Reading.output]
  have cause : reading.cause? = other.cause? := by
    rw [Reading.cause?, alike.result, Reading.cause?]
  obtain ⟨outputs, labels, causes⟩ := Summary.mk.inj same
  simp only [ofReadings, List.flatMap_cons, List.filterMap_cons, List.findSome?_cons, output, cause,
    alike.label, outputs, labels, causes]

end Summary

namespace Environment

variable (environment : Environment)

/-- The position behind a line depends on nothing but the line and the position before it. -/
theorem eq_positionAfterLine {position next : Position} {line : Text} {output : List Output}
    (read : (environment.readLine position line).result = .ok (next, output)) :
    next = environment.settings.positionAfterLine position line := by
  cases position with
  | outside =>
      rw [readLine] at read
      rw [Settings.positionAfterLine]
      cases opens : environment.settings.opens line with
      | false =>
          rw [environment.readOutside_of_rests opens] at read
          obtain ⟨rfl, rfl⟩ := Prod.mk.inj (Except.ok.inj read)
          rfl
      | true =>
          rcases environment.readOutside_of_opens opens with ⟨header, _, found⟩ | ⟨_, cause, failed⟩
          · rw [found] at read
            obtain ⟨rfl, rfl⟩ := Prod.mk.inj (Except.ok.inj read)
            rfl
          · rw [failed] at read
            contradiction
  | inside =>
      rw [readLine] at read
      rw [Settings.positionAfterLine]
      cases last : closes line with
      | true =>
          rw [(environment.readInside_of_closes last).1] at read
          obtain ⟨rfl, rfl⟩ := Prod.mk.inj (Except.ok.inj read)
          rfl
      | false =>
          cases quiet : silent line with
          | true =>
              rw [(environment.readInside_of_silent last quiet).1] at read
              obtain ⟨rfl, rfl⟩ := Prod.mk.inj (Except.ok.inj read)
              rfl
          | false => exact (environment.readInside_of_speaks last quiet read).1

theorem idle_of_plain {line : Text} (plain : segmentName? line = none) :
    (environment.readLine .outside line).Idle .outside := by
  rw [readLine, readOutside, plain]
  exact ⟨rfl, rfl⟩

/-- A line without words adds nothing, wherever it stands. -/
theorem idle_of_hasNoWord (position : Position) {line : Text} (blank : hasNoWord line = true) :
    (environment.readLine position line).Idle position := by
  cases position with
  | outside => exact environment.idle_of_plain (segmentName?_of_hasNoWord blank)
  | inside =>
      have quiet : silent line = true := by rw [silent, blank, Bool.true_or]
      obtain ⟨result, label⟩ := environment.readInside_of_silent (closes_of_hasNoWord blank) quiet
      exact ⟨label, result⟩

/-- A comment behind a line changes no reading of it. -/
theorem alike_append_comment (position : Position) {line tail : Text}
    (closed : LastWordClosed line) (comment : IsComment tail) :
    (environment.readLine position line).Alike (environment.readLine position (line ++ tail)) := by
  cases position with
  | outside =>
      rw [readLine, readOutside, readOutside, comment.segmentName?_append]
      cases segmentName? line <;> exact ⟨rfl, rfl⟩
  | inside =>
      rw [readLine, readInside, readInside, comment.words_append closed]
      exact ⟨rfl, rfl⟩

theorem summary_cons_idle {position : Position} {line : Text}
    (idle : (environment.readLine position line).Idle position) (rest : List Text) :
    Summary.ofReadings (environment.readings position (line :: rest)) =
      Summary.ofReadings (environment.readings position rest) := by
  rw [readings, idle.result]
  exact Summary.cons_idle idle _

theorem summary_cons_alike {position : Position} {line other : Text}
    (alike : (environment.readLine position line).Alike (environment.readLine position other))
    (rest : List Text) :
    Summary.ofReadings (environment.readings position (line :: rest)) =
      Summary.ofReadings (environment.readings position (other :: rest)) := by
  rw [readings, readings, alike.result]
  cases (environment.readLine position other).result with
  | error cause => exact Summary.cons_congr alike rfl
  | ok read => exact Summary.cons_congr alike rfl

/-- Lines in front take the reading to a position, from which the others are read. -/
theorem summary_append_congr (position : Position) (front : List Text) {first second : List Text}
    (same :
      Summary.ofReadings
          (environment.readings (environment.settings.positionAfter position front) first) =
        Summary.ofReadings
          (environment.readings (environment.settings.positionAfter position front) second)) :
    Summary.ofReadings (environment.readings position (front ++ first)) =
      Summary.ofReadings (environment.readings position (front ++ second)) := by
  induction front generalizing position with
  | nil => exact same
  | cons line front inductionHypothesis =>
      rw [List.cons_append, List.cons_append, readings, readings]
      cases read : (environment.readLine position line).result with
      | error cause => rfl
      | ok found =>
          -- The line in front is read alike and leads to the same position both times.
          have next : found.1 = environment.settings.positionAfterLine position line :=
            environment.eq_positionAfterLine read
          apply Summary.cons_congr ⟨rfl, rfl⟩
          rw [next]
          exact inductionHypothesis _ same

/-- One change leaves what the readings come to. -/
theorem summary_of_edit {first second : List Text} (edit : Edit environment.settings first second) :
    Summary.ofReadings (environment.readings .outside first) =
      Summary.ofReadings (environment.readings .outside second) := by
  cases edit with
  | insert blank front back =>
      apply environment.summary_append_congr
      exact (environment.summary_cons_idle (environment.idle_of_hasNoWord _ blank) back).symm
  | comment closed comment front back =>
      apply environment.summary_append_congr
      exact environment.summary_cons_alike (environment.alike_append_comment _ closed comment) back
  | replace outside plain plainToo back =>
      apply environment.summary_append_congr
      rw [outside,
        environment.summary_cons_idle (environment.idle_of_plain (segmentName?_eq_none.2 plain)),
        environment.summary_cons_idle (environment.idle_of_plain (segmentName?_eq_none.2 plainToo))]

/-- Only the last reading can fail. -/
theorem getLast?_bind_cause? (position : Position) (lines : List Text) :
    (environment.readings position lines).getLast?.bind Reading.cause? =
      (environment.readings position lines).findSome? Reading.cause? := by
  induction lines generalizing position with
  | nil => rfl
  | cons line rest inductionHypothesis =>
      cases read : (environment.readLine position line).result with
      | error cause => simp [readings, Reading.cause?, read]
      | ok found =>
          have shape : environment.readings position (line :: rest) =
              environment.readLine position line :: environment.readings found.1 rest := by
            rw [readings, read]
          have passes : (environment.readLine position line).cause? = none := by
            rw [Reading.cause?, read]
          rw [shape, List.findSome?_cons, passes, ← inductionHypothesis found.1]
          cases environment.readings found.1 rest with
          | nil => exact passes
          | cons reading others => rw [List.getLast?_cons_cons]

end Environment

namespace Session

/-- The answer without the place of a failure. -/
def outcome (converted : Except Failure Text) : Except Cause Text :=
  converted.mapError Failure.cause

/-- A conversion depends on what the readings come to, apart from places and messages. -/
theorem convert_of_summary {environment : Environment} (session : Session) {source other : Text}
    (same : Summary.ofReadings (environment.readings .outside (Text.lines source)) =
      Summary.ofReadings (environment.readings .outside (Text.lines other))) :
    outcome (session.convert environment source).1 =
        outcome (session.convert environment other).1 ∧
      (session.convert environment source).2.defined =
        (session.convert environment other).2.defined ∧
      (session.convert environment source).2.pending =
        (session.convert environment other).2.pending := by
  obtain ⟨output, labels, causes⟩ := Summary.mk.inj same
  have pending : (session.absorb (environment.readings .outside (Text.lines source))).pending =
      (session.absorb (environment.readings .outside (Text.lines other))).pending :=
    congrArg (session.pending ++ ·) output
  have defined : (session.absorb (environment.readings .outside (Text.lines source))).defined =
      (session.absorb (environment.readings .outside (Text.lines other))).defined :=
    congrArg session.defined.insertAll labels
  rw [← environment.getLast?_bind_cause?, ← environment.getLast?_bind_cause?] at causes
  unfold convert
  dsimp only
  rw [causes]
  cases (environment.readings .outside (Text.lines other)).getLast?.bind Reading.cause? with
  | some cause => exact ⟨rfl, defined, pending⟩
  | none => exact ⟨by dsimp only; rw [pending, defined], defined, rfl⟩

/-- Any number of changes that say nothing, made or taken back, leave the text or the cause of the
failure, the labels and what is pending. -/
theorem convert_edited (environment : Environment) (session : Session) {source other : Text}
    (edited : Relation.EqvGen (Edit environment.settings) (Text.lines source) (Text.lines other)) :
    outcome (session.convert environment source).1 =
        outcome (session.convert environment other).1 ∧
      (session.convert environment source).2.defined =
        (session.convert environment other).2.defined ∧
      (session.convert environment source).2.pending =
        (session.convert environment other).2.pending := by
  apply convert_of_summary
  generalize Text.lines source = first at edited ⊢
  generalize Text.lines other = second at edited ⊢
  induction edited with
  | rel first second edit => exact environment.summary_of_edit edit
  | refl => rfl
  | symm first second _ inductionHypothesis => exact inductionHypothesis.symm
  | trans first second third _ _ before after => exact before.trans after

/-- Changes in front of a segment and inside of it. -/
theorem convert_edited_around :
    let environment : Environment := ⟨.standard, .empty, ∅⟩
    let source := "junk\n_data segment\nx dd 1\n_data ends\n".toList
    let other := "; note\nmov eax, 1\n_data segment\nx dd 1 ; it's one\n\n_data ends\n".toList
    Relation.EqvGen (Edit environment.settings) (Text.lines source) (Text.lines other) ∧
      outcome ((start []).convert environment source).1 =
        outcome ((start []).convert environment other).1 ∧
      ((start []).convert environment other).1 =
        .ok "\n.data\n.align 4\n_x:\t\t  .long 1\n\n.global _x\n".toList := by
  intro environment source other
  let junk := "junk".toList
  let code := "mov eax, 1".toList
  let note := "; note".toList
  let opening := "_data segment".toList
  let data := "x dd 1".toList
  let remark := " ; it's one".toList
  let ending := "_data ends".toList
  have cut : Text.lines source = [junk, opening, data, ending] := by decide +kernel
  have cutToo : Text.lines other = [note, code, opening, data ++ remark, [], ending] := by
    decide +kernel
  have closed : LastWordClosed data := by
    intro word last
    have found : (words data).getLast? = some ⟨['1']⟩ := by decide +kernel
    rw [found] at last
    obtain rfl := Option.some.inj last
    decide
  have tail : IsComment remark := by
    have blank : ∀ letter ∈ [' '], isBlank letter = true := by decide
    exact .intro (by decide) blank " it's one".toList
  have outside : environment.settings.positionAfter .outside [note] = .outside := by decide +kernel
  have noted : Edit environment.settings [junk, opening, data, ending]
      [note, junk, opening, data, ending] :=
    .insert (by decide +kernel) [] [junk, opening, data, ending]
  have replaced : Edit environment.settings [note, junk, opening, data, ending]
      [note, code, opening, data, ending] :=
    .replace outside (by decide +kernel) (by decide +kernel) [opening, data, ending]
  have remarked : Edit environment.settings [note, code, opening, data, ending]
      [note, code, opening, data ++ remark, ending] :=
    .comment closed tail [note, code, opening] [ending]
  have spaced : Edit environment.settings [note, code, opening, data ++ remark, ending]
      [note, code, opening, data ++ remark, [], ending] :=
    .insert (by decide +kernel) [note, code, opening, data ++ remark] [ending]
  have edited : Relation.EqvGen (Edit environment.settings) (Text.lines source)
      (Text.lines other) := by
    rw [cut, cutToo]
    exact .trans _ _ _ (.rel _ _ noted) (.trans _ _ _ (.rel _ _ replaced)
      (.trans _ _ _ (.rel _ _ remarked) (.rel _ _ spaced)))
  obtain ⟨same, _⟩ := convert_edited environment (start []) edited
  exact ⟨edited, same, by decide +kernel⟩

end Session

end DataSegment
