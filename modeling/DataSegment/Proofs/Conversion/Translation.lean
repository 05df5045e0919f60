import Mathlib.Data.List.TakeWhile
import DataSegment.Proofs.Conversion.Segments

namespace DataSegment

open Assembly

namespace Environment

variable (environment : Environment)

theorem readLine_raw (position : Position) (line : Text) :
    (environment.readLine position line).raw = line := by
  cases position with
  | outside =>
      rw [readLine, readOutside]
      split <;> rfl
  | inside => rfl

/-- Nothing is read behind a line that fails. -/
theorem upToFailure_findings (position : Position) (lines : List Location) :
    upToFailure (environment.findings position lines) = environment.findings position lines := by
  induction lines generalizing position with
  | nil => rfl
  | cons line rest inductionHypothesis =>
      rw [findings, upToFailure]
      cases result : (environment.readLine position line.raw).result with
      | error cause => simp [upToFailure]
      | ok read =>
          rw [if_pos (by simp [Finding.passes, Reading.cause?, result])]
          exact congrArg _ (inductionHypothesis read.1)

/-- The places of the lines do not count. -/
theorem map_findings (file : Text) (number : Nat) (position : Position) (lines : List Text) :
    (environment.findings position (locations file number lines)).map Prod.snd =
      environment.readings position lines := by
  induction lines generalizing position number with
  | nil => rfl
  | cons line rest inductionHypothesis =>
      rw [locations, findings, readings]
      dsimp only
      cases (environment.readLine position line).result with
      | error cause => rfl
      | ok read => exact congrArg _ (inductionHypothesis (number + 1) read.1)

/-- The failure of a listing stands at the last line that was read. -/
theorem findSome?_findings (file raw : Text) (number : Nat) (position : Position)
    (lines : List Text) :
    let readings := environment.readings position lines
    (environment.findings position (locations file number lines)).findSome? Finding.failure? =
      (readings.getLast?.bind Reading.cause?).map fun cause =>
        ⟨cause, file, number + readings.length, (readings.getLast?.map Reading.raw).getD raw⟩ := by
  induction lines generalizing position number with
  | nil => rfl
  | cons line rest inductionHypothesis =>
      intro read
      have raw := environment.readLine_raw position line
      dsimp only [read]
      rw [locations, readings, findings]
      dsimp only
      cases result : (environment.readLine position line).result with
      | error cause => simp [Finding.failure?, Reading.cause?, result, raw]
      | ok found =>
          have passes : (environment.readLine position line).cause? = none := by
            simp [Reading.cause?, result]
          have silent : Finding.failure? (⟨file, number + 1, line⟩,
              environment.readLine position line) = none := by
            rw [Finding.failure?, passes, Option.map_none]
          rw [List.findSome?_cons, silent]
          dsimp only
          rw [inductionHypothesis (number + 1) found.1]
          cases others : environment.readings found.1 rest with
          | nil => simp [passes]
          | cons reading readings =>
              rw [List.getLast?_cons_cons, List.length_cons, List.length_cons, List.length_cons]
              simp [Nat.add_assoc, Nat.add_comm 1]

/-- The lines of a listing that open a segment or stand in one and say something, as they are
read. -/
def relevant (file : Text) (number : Nat) (source : Text) : List Finding :=
  (segments environment.settings (locations file number (Text.lines source))).flatMap
    environment.segmentFindings

theorem decisive_relevant (file : Text) (number : Nat) (source : Text) :
    decisive (environment.relevant file number source) =
      (environment.findings .outside (locations file number (Text.lines source))).filter
        Finding.speaks := by
  rw [relevant, ← decisive_findings_outside, decisive, upToFailure_findings]

/-- The lines of a listing that are translated. -/
def translatedLines (source : Text) : List Finding :=
  (environment.relevant [] 0 source).takeWhile Finding.passes

/-- The line that stops the conversion of a listing. -/
def failingLine? (source : Text) : Option Finding :=
  (environment.relevant [] 0 source).find? fun finding => !finding.passes

/-- What a listing is translated to, up to the line that fails. -/
def translated (source : Text) : List Output :=
  (environment.translatedLines source).flatMap Finding.output

/-- The labels that a listing defines, also in the line that fails. -/
def labels (source : Text) : List Text :=
  (environment.translatedLines source).filterMap Finding.label ++
    ((environment.failingLine? source).bind Finding.label).toList

theorem labels_of_accepted {source : Text} (accepted : environment.failingLine? source = none) :
    environment.labels source = (environment.translatedLines source).filterMap Finding.label := by
  rw [labels, accepted]
  exact List.append_nil _

theorem labels_of_refused {source : Text} {finding : Finding}
    (refused : environment.failingLine? source = some finding) :
    environment.labels source =
      (environment.translatedLines source).filterMap Finding.label ++ finding.label.toList := by
  rw [labels, refused, Option.bind_some]

theorem flatMap_output_readings (file : Text) (number : Nat) (source : Text) :
    (environment.readings .outside (Text.lines source)).flatMap Reading.output =
      ((environment.relevant file number source).takeWhile Finding.passes).flatMap
        Finding.output := by
  rw [← environment.map_findings file number, List.flatMap_map]
  change (environment.findings .outside (locations file number (Text.lines source))).flatMap
    Finding.output = _
  rw [← flatMap_output_filter, ← decisive_relevant, flatMap_output_decisive]

theorem filterMap_label_readings (file : Text) (number : Nat) (source : Text) :
    (environment.readings .outside (Text.lines source)).filterMap Reading.label =
      ((environment.relevant file number source).takeWhile Finding.passes).filterMap
          Finding.label ++
        (((environment.relevant file number source).find? fun finding => !finding.passes).bind
          Finding.label).toList := by
  rw [← environment.map_findings file number, List.filterMap_map]
  change (environment.findings .outside (locations file number (Text.lines source))).filterMap
    Finding.label = _
  rw [← filterMap_label_filter, ← decisive_relevant, filterMap_label_decisive]

theorem findSome?_relevant (file raw : Text) (number : Nat) (source : Text) :
    let readings := environment.readings .outside (Text.lines source)
    (environment.relevant file number source).findSome? Finding.failure? =
      (readings.getLast?.bind Reading.cause?).map fun cause =>
        ⟨cause, file, number + readings.length, (readings.getLast?.map Reading.raw).getD raw⟩ := by
  intro readings
  rw [← findSome?_decisive, relevant, ← decisive_findings_outside, findSome?_decisive]
  exact environment.findSome?_findings file raw number .outside (Text.lines source)

/-- Whether a listing fails does not depend on where it stands. -/
theorem failingLine?_eq_none (file : Text) (number : Nat) (source : Text) :
    environment.failingLine? source = none ↔
      (environment.relevant file number source).findSome? Finding.failure? = none := by
  have alone : environment.failingLine? source = none ↔
      (environment.relevant [] 0 source).findSome? Finding.failure? = none := by
    simp [failingLine?, Finding.failure?_eq_none]
  rw [alone, environment.findSome?_relevant [] [], environment.findSome?_relevant file [],
    Option.map_eq_none_iff, Option.map_eq_none_iff]

/-- When no line fails, all that matter are translated, wherever the listing stands. -/
theorem translated_of_accepted {file : Text} {number : Nat} {source : Text}
    (accepted : (environment.relevant file number source).findSome? Finding.failure? = none) :
    environment.translated source =
        (environment.relevant file number source).flatMap Finding.output ∧
      environment.labels source =
        (environment.relevant file number source).filterMap Finding.label := by
  have passes : ∀ finding ∈ environment.relevant file number source, finding.passes = true := by
    intro finding member
    exact Finding.failure?_eq_none.1 (List.findSome?_eq_none_iff.1 accepted finding member)
  have all : (environment.relevant file number source).takeWhile Finding.passes =
      environment.relevant file number source := List.takeWhile_eq_self_iff.2 passes
  have none : (environment.relevant file number source).find? (fun finding => !finding.passes) =
      none := by simpa using passes
  constructor
  · rw [translated, translatedLines, ← environment.flatMap_output_readings [] 0,
      environment.flatMap_output_readings file number, all]
  · rw [labels, translatedLines, failingLine?, ← environment.filterMap_label_readings [] 0,
      environment.filterMap_label_readings file number, all, none]
    simp

end Environment

namespace Session

variable (environment : Environment) (session : Session) (source : Text)

/-- The session after the lines of a listing were read. -/
def reading : Session := session.absorb (environment.readings .outside (Text.lines source))

theorem defined_reading :
    (session.reading environment source).defined =
      session.defined.insertAll (environment.labels source) := by
  rw [Environment.labels, Environment.translatedLines, Environment.failingLine?,
    ← environment.filterMap_label_readings]
  rfl

theorem pending_reading :
    (session.reading environment source).pending =
      session.pending ++ environment.translated source := by
  rw [Environment.translated, Environment.translatedLines, ← environment.flatMap_output_readings]
  rfl

/-- The first line that fails decides about a conversion. -/
theorem convert_eq :
    session.convert environment source =
      match (environment.relevant session.file session.line source).findSome? Finding.failure? with
      | some failure => (.error failure, session.reading environment source)
      | none => (.ok (program environment.settings.symbolPrefix
            (session.reading environment source).pending
            (session.reading environment source).defined),
          { session.reading environment source with pending := [] }) := by
  rw [environment.findSome?_relevant session.file session.raw, convert, reading]
  cases (environment.readings .outside (Text.lines source)).getLast?.bind Reading.cause? <;> rfl

end Session

end DataSegment
