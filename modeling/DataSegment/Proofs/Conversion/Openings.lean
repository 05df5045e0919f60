import DataSegment.Proofs.Conversion.Locations

namespace DataSegment

open Assembly Listing

namespace Text

theorem sameLetters_iff {first second : Text} :
    sameLetters first second = true ↔ first.map Char.toLower = second.map Char.toLower := beq_iff_eq

theorem sameLetters_congr {first second : Text} (same : sameLetters first second = true)
    (other : Text) : sameLetters first other = sameLetters second other := by
  rw [sameLetters, sameLetters_iff.1 same, ← sameLetters]

end Text

/-- Names that differ in the case of their letters have the same key, and so have names that differ
in an ASCII character at their start. -/
theorem Listing.sameLetters_segmentKey {first firstToo : Char} {rest restToo : Text}
    (ascii : firstToo.toNat < 128 ↔ first.toNat < 128)
    (same : Text.sameLetters restToo rest = true) :
    Text.sameLetters (segmentKey (firstToo :: restToo)) (segmentKey (first :: rest)) = true := by
  rw [segmentKey, segmentKey]
  by_cases plain : first.toNat < 128
  · rw [if_pos plain, if_pos (ascii.2 plain)]
    exact same
  · rw [if_neg plain, if_neg (mt ascii.1 plain)]
    rfl

/-- What becomes of a segment. -/
inductive Selection where
  | skipped
  | opened (header : Text)
  | unknown
  deriving DecidableEq

namespace Settings

variable {settings : Settings} {key : Text}

/-- The names to skip come before the table of headers, of which the first that fits counts. Case
makes no difference. -/
inductive Selects (settings : Settings) (key : Text) : Selection → Prop where
  | skipped {name : Text} (listed : name ∈ settings.skippedSections)
      (same : Text.sameLetters key name = true) : Selects settings key .skipped
  | opened {before after : List (Text × Text)} {name header : Text}
      (kept : ∀ name ∈ settings.skippedSections, Text.sameLetters key name = false)
      (table : settings.sections = before ++ (name, header) :: after)
      (passed : ∀ entry ∈ before, Text.sameLetters key entry.1 = false)
      (same : Text.sameLetters key name = true) : Selects settings key (.opened header)
  | unknown (kept : ∀ name ∈ settings.skippedSections, Text.sameLetters key name = false)
      (missing : ∀ entry ∈ settings.sections, Text.sameLetters key entry.1 = false) :
      Selects settings key .unknown

theorem Selects.congr {other : Text} {selection : Selection}
    (same : Text.sameLetters key other = true) (selects : settings.Selects key selection) :
    settings.Selects other selection := by
  cases selects with
  | skipped listed found =>
      rw [Text.sameLetters_congr same] at found
      exact .skipped listed found
  | opened kept table passed found =>
      simp only [Text.sameLetters_congr same] at kept passed found
      exact .opened kept table passed found
  | unknown kept missing =>
      simp only [Text.sameLetters_congr same] at kept missing
      exact .unknown kept missing

/-- The settings make exactly one choice. -/
def selection (settings : Settings) (key : Text) : Selection :=
  if settings.skippedSections.any (Text.sameLetters key) then .skipped
  else
    match settings.sections.find? fun entry => Text.sameLetters key entry.1 with
    | some entry => .opened entry.2
    | none => .unknown

theorem selects_selection : settings.Selects key (settings.selection key) := by
  unfold selection
  split
  · rename_i skips
    obtain ⟨name, listed, same⟩ := List.any_eq_true.1 skips
    exact .skipped listed same
  · rename_i keeps
    have kept : ∀ name ∈ settings.skippedSections, Text.sameLetters key name = false := by
      simpa using keeps
    split
    · rename_i entry found
      obtain ⟨same, before, after, table, passed⟩ := List.find?_eq_some_iff_append.1 found
      exact .opened kept table (by simpa using passed) same
    · rename_i missing
      exact .unknown kept (by simpa using missing)

theorem Selects.eq_selection {selection : Selection} (selects : settings.Selects key selection) :
    selection = settings.selection key := by
  unfold Settings.selection
  cases selects with
  | skipped listed same => rw [if_pos (List.any_eq_true.2 ⟨_, listed, same⟩)]
  | @opened before after name header kept table passed same =>
      have found : settings.sections.find? (fun entry => Text.sameLetters key entry.1) =
          some (name, header) := by
        rw [List.find?_eq_some_iff_append]
        exact ⟨same, before, after, table, by simpa using passed⟩
      rw [if_neg (by simpa using kept), found]
  | unknown kept missing =>
      have found : settings.sections.find? (fun entry => Text.sameLetters key entry.1) = none := by
        simpa using missing
      rw [if_neg (by simpa using kept), found]

theorem selects_iff {selection : Selection} :
    settings.Selects key selection ↔ selection = settings.selection key := by
  constructor
  · exact Selects.eq_selection
  · rintro rfl
    exact selects_selection

/-- A key in another case is a key to the same. -/
theorem selects_iff_of_sameLetters {other : Text} (same : Text.sameLetters other key = true)
    {selection : Selection} :
    settings.Selects other selection ↔ selection = settings.selection key := by
  rw [selects_iff, (selects_selection.congr same).eq_selection]

end Settings

namespace Environment

variable (environment : Environment)

/-- The line that starts a segment is read as the settings choose by the key of the segment. -/
theorem readOutside_segment {line name : Text} (named : segmentName? line = some name) :
    environment.readOutside line = match environment.settings.selection (segmentKey name) with
      | .skipped => ⟨line, [.skippedSegment name], none, .ok (.outside, [])⟩
      | .opened header =>
          ⟨line, [], none, .ok (.inside, [.opening header environment.settings.alignment])⟩
      | .unknown => ⟨line, [], none, .error (.unknownSegment name)⟩ := by
  unfold readOutside openSegment Settings.selection
  rw [named]
  dsimp only
  split
  · rfl
  · cases environment.settings.sections.find? fun entry =>
      Text.sameLetters (segmentKey name) entry.1 <;> rfl

/-- Lines that do not fail are read one by one, and the others behind them. -/
theorem readings_append {position : Position} {front : List Text}
    (passes : ∀ reading ∈ environment.readings position front, reading.cause? = none)
    (back : List Text) :
    environment.readings position (front ++ back) = environment.readings position front ++
      environment.readings (environment.settings.positionAfter position front) back := by
  induction front generalizing position with
  | nil => rfl
  | cons line front inductionHypothesis =>
      rw [List.cons_append, readings, readings]
      rw [readings] at passes
      cases result : (environment.readLine position line).result with
      | error cause => simp [result, Reading.cause?] at passes
      | ok found =>
          have next : found.1 = environment.settings.positionAfterLine position line :=
            environment.eq_positionAfterLine result
          rw [result] at passes
          have later := inductionHypothesis fun reading listed =>
            passes reading (List.mem_cons_of_mem _ listed)
          dsimp only
          rw [later, next]
          rfl

theorem length_readings {position : Position} {lines : List Text}
    (passes : ∀ reading ∈ environment.readings position lines, reading.cause? = none) :
    (environment.readings position lines).length = lines.length := by
  apply environment.length_readings_of_passes
  rw [getLast?_bind_cause?]
  exact List.findSome?_eq_none_iff.2 passes

end Environment

namespace Session

/-- A conversion that has read some lines adds output and reads the others from a position on. -/
structure Resumes (environment : Environment) (session : Session) (front : List Text)
    (output : List Output) (position : Position) (back : List Text)
    (converted : Except Failure Text × Session) : Prop where
  defined : converted.2.defined = session.defined.insertAll
    ((environment.readings .outside front ++ environment.readings position back).filterMap
      Reading.label)
  refused : ∀ cause, (environment.readings position back).findSome? Reading.cause? = some cause →
    ∃ place, converted.1 = .error ⟨cause, place⟩
  accepted : (∀ reading ∈ environment.readings position back, reading.cause? = none) →
    converted.1 = .ok (program environment.settings.symbolPrefix
      (session.pending ++ (environment.readings .outside front).flatMap Reading.output ++ output ++
        (environment.readings position back).flatMap Reading.output) converted.2.defined)

variable {environment : Environment} {session : Session} {source : Text} {front back : List Text}

/-- What is read behind a line that passes decides about the conversion. -/
theorem resumes_of_readings {reading : Reading} {output : List Output} {position : Position}
    (passes : ∀ reading ∈ environment.readings .outside front, reading.cause? = none)
    (result : reading.result = .ok (position, output)) (unnamed : reading.label = none)
    (read : environment.readings .outside (Text.lines source) =
      environment.readings .outside front ++ reading :: environment.readings position back) :
    session.Resumes environment front output position back
      (session.convert environment source) := by
  have goes : reading.cause? = none := by rw [Reading.cause?, result]
  have adds : reading.output = output := by rw [Reading.output, result]
  have last : (environment.readings .outside (Text.lines source)).getLast?.bind Reading.cause? =
      (environment.readings position back).findSome? Reading.cause? := by
    rw [environment.getLast?_bind_cause?, read, List.findSome?_append,
      List.findSome?_eq_none_iff.2 passes, Option.none_or, List.findSome?_cons, goes]
  constructor
  · rw [defined_convert, read, List.filterMap_append, List.filterMap_cons, unnamed,
      ← List.filterMap_append]
  · intro cause found
    rw [convert, last, found]
    exact ⟨_, rfl⟩
  · intro others
    rw [convert, last, List.findSome?_eq_none_iff.2 others]
    dsimp only
    rw [absorb, read, List.flatMap_append, List.flatMap_cons, adds]
    simp only [List.append_assoc]

/-- A conversion fails where its readings end in a failure. -/
theorem convert_of_error {earlier : List Reading} {reading : Reading} {cause : Cause}
    (read : environment.readings .outside (Text.lines source) = earlier ++ [reading])
    (failed : reading.result = .error cause) :
    (session.convert environment source).1 =
      .error ⟨cause, session.file, session.line + earlier.length + 1, reading.raw⟩ := by
  have caused : reading.cause? = some cause := by rw [Reading.cause?, failed]
  rw [convert, read, List.getLast?_concat, Option.bind_some, caused, location, absorb]
  simp [Nat.add_assoc]

/-- A segment that is known by another name converts alike. -/
theorem outcome_of_sameLetters {line lineToo name nameToo sourceToo : Text}
    (cut : Text.lines source = front ++ line :: back)
    (cutToo : Text.lines sourceToo = front ++ lineToo :: back)
    (outside : environment.settings.positionAfter .outside front = .outside)
    (named : segmentName? line = some name) (namedToo : segmentName? lineToo = some nameToo)
    (same : Text.sameLetters (segmentKey nameToo) (segmentKey name) = true)
    (known : environment.settings.selection (segmentKey name) ≠ .unknown) :
    outcome (session.convert environment sourceToo).1 =
      outcome (session.convert environment source).1 := by
  have choice : environment.settings.selection (segmentKey nameToo) =
      environment.settings.selection (segmentKey name) :=
    (Settings.selects_iff_of_sameLetters same).1 Settings.selects_selection
  have alike : (environment.readLine .outside lineToo).Alike
      (environment.readLine .outside line) := by
    rw [Environment.readLine, environment.readOutside_segment named,
      environment.readOutside_segment namedToo, choice]
    cases chosen : environment.settings.selection (segmentKey name) with
    | skipped => exact ⟨rfl, rfl⟩
    | opened header => exact ⟨rfl, rfl⟩
    | unknown => exact absurd chosen known
  refine (convert_of_summary session ?_).1
  rw [cut, cutToo]
  apply environment.summary_append_congr
  rw [outside]
  exact environment.summary_cons_alike alike back

/-- The settings choose by the name of a segment without its first character, and nothing else
matters: not which ASCII character that is, and not the case of the others. After any other
character they choose by an empty name. -/
theorem convert_segment {first : Char} {line rest : Text}
    (cut : Text.lines source = front ++ line :: back)
    (outside : environment.settings.positionAfter .outside front = .outside)
    (passes : ∀ reading ∈ environment.readings .outside front, reading.cause? = none)
    (named : segmentName? line = some (first :: rest)) :
    let settings := environment.settings
    let key := if first.toNat < 128 then rest else []
    let converted := session.convert environment source
    let place : Location := ⟨session.file, session.line + front.length + 1, line⟩
    ∃ selection,
      (∀ spelling other, Text.sameLetters spelling key = true →
        (settings.Selects spelling other ↔ other = selection)) ∧
      (selection ≠ .unknown → ∀ sourceToo lineToo firstToo restToo,
        Text.lines sourceToo = front ++ lineToo :: back →
        segmentName? lineToo = some (firstToo :: restToo) →
        (firstToo.toNat < 128 ↔ first.toNat < 128) → Text.sameLetters restToo rest = true →
        outcome (session.convert environment sourceToo).1 = outcome converted.1) ∧
      match selection with
      | .skipped =>
          ⟨.skippedSegment (first :: rest), place⟩ ∈ converted.2.messages ∧
            session.Resumes environment front [] .outside back converted
      | .opened header =>
          session.Resumes environment front [.opening header settings.alignment] .inside back
            converted
      | .unknown => converted.1 = .error ⟨.unknownSegment (first :: rest), place⟩ := by
  intro settings key converted place
  refine ⟨environment.settings.selection key, fun spelling other same =>
    Settings.selects_iff_of_sameLetters same, ?_, ?_⟩
  · intro known sourceToo lineToo firstToo restToo cutToo namedToo ascii same
    exact outcome_of_sameLetters cut cutToo outside named namedToo
      (sameLetters_segmentKey ascii same) known
  have counted := environment.length_readings passes
  have read := environment.readings_append passes (line :: back)
  have opening : segmentKey (first :: rest) = key := rfl
  rw [← cut, outside, Environment.readings, Environment.readLine,
    environment.readOutside_segment named, opening] at read
  cases chosen : environment.settings.selection key with
  | skipped =>
      rw [chosen] at read
      refine ⟨?_, resumes_of_readings passes rfl rfl read⟩
      rw [messages_convert, read]
      refine List.mem_append_right _ (mem_locate.2 ⟨_, _, _, rfl, List.mem_singleton_self _, ?_⟩)
      rw [counted]
  | opened header =>
      rw [chosen] at read
      exact resumes_of_readings passes rfl rfl read
  | unknown =>
      rw [chosen] at read
      rw [convert_of_error read rfl, counted]

/-- A segment that is known in capitals, behind a comment. -/
theorem convert_segment_capitals :
    let environment : Environment := ⟨.standard, .empty, ∅⟩
    let source := "; note\n_DATA segment\nx dd 1\n".toList
    let front := ["; note".toList]
    let opening := "_DATA segment".toList
    let back := ["x dd 1".toList]
    Text.lines source = front ++ opening :: back ∧
      environment.settings.positionAfter .outside front = .outside ∧
      (∀ reading ∈ environment.readings .outside front, reading.cause? = none) ∧
      segmentName? opening = some ('_' :: "DATA".toList) ∧
      environment.settings.Selects "data".toList (.opened ".data".toList) ∧
      (start []).Resumes environment front [.opening ".data".toList 4] .inside back
        ((start []).convert environment source) := by
  intro environment source front opening back
  have cut : Text.lines source = front ++ opening :: back := by decide +kernel
  have outside : environment.settings.positionAfter .outside front = .outside := by decide +kernel
  have passes : ∀ reading ∈ environment.readings .outside front, reading.cause? = none := by
    decide +kernel
  have named : segmentName? opening = some ('_' :: "DATA".toList) := by decide +kernel
  have selects : environment.settings.Selects "data".toList (.opened ".data".toList) := by
    rw [Settings.selects_iff]
    decide +kernel
  obtain ⟨selection, choice, _, effect⟩ :=
    @convert_segment environment (start []) source front back '_' opening "DATA".toList cut outside
      passes named
  obtain rfl := (choice "data".toList _ (by decide +kernel)).1 selects
  exact ⟨cut, outside, passes, named, selects, effect⟩

/-- The name of a segment is lost behind a first character that is not ASCII, although the settings
have a header for it. -/
theorem convert_segment_accented :
    let environment : Environment := ⟨.standard, .empty, ∅⟩
    let opening := '\u00e9' :: "data segment".toList
    let source := opening ++ "\nx dd 1\n".toList
    let name := '\u00e9' :: "data".toList
    segmentName? opening = some name ∧
      environment.settings.Selects "data".toList (.opened ".data".toList) ∧
      ((start []).convert environment source).1 =
        .error ⟨.unknownSegment name, [], 1, opening⟩ := by
  intro environment opening source name
  refine ⟨by decide +kernel, ?_, by decide +kernel⟩
  rw [Settings.selects_iff]
  decide +kernel

end Session

end DataSegment
