import DataSegment.Proofs.Conversion.Edits

namespace DataSegment

open Listing

namespace Remark

def warnings (remarks : List Remark) : List Remark :=
  remarks.filter fun remark => remark.severity = .warning

theorem warnings_append (first rest : List Remark) :
    warnings (first ++ rest) = warnings first ++ warnings rest := List.filter_append ..

theorem warnings_eq_nil {remarks : List Remark}
    (notes : ∀ remark ∈ remarks, remark.severity = .note) : warnings remarks = [] := by
  rw [warnings, List.filter_eq_nil_iff]
  intro remark listed
  rw [notes remark listed]
  decide

end Remark

namespace Environment

variable (environment : Environment)

/-- What is read from a line of a listing, given the lines in front of it. -/
def readBehind (front : List Text) (line : Text) : Reading :=
  environment.readLine (environment.settings.positionAfter .outside front) line

/-- Every reading is that of the line at its place. -/
theorem exists_line_of_readings {position : Position} {lines : List Text}
    {earlier later : List Reading} {reading : Reading}
    (read : environment.readings position lines = earlier ++ reading :: later) :
    ∃ front line back, lines = front ++ line :: back ∧ front.length = earlier.length ∧
      reading = environment.readLine (environment.settings.positionAfter position front) line := by
  induction lines generalizing position earlier with
  | nil =>
      rw [readings] at read
      simp at read
  | cons first rest inductionHypothesis =>
      rw [readings] at read
      cases earlier with
      | nil =>
          refine ⟨[], first, rest, rfl, rfl, ?_⟩
          split at read <;> exact (List.cons.inj read).1.symm
      | cons other earlier =>
          cases result : (environment.readLine position first).result with
          | error cause =>
              rw [result] at read
              simp at read
          | ok found =>
              rw [result] at read
              have next := environment.eq_positionAfterLine result
              obtain ⟨front, line, back, rfl, same, rfl⟩ :=
                inductionHypothesis (List.cons.inj read).2
              refine ⟨first :: front, line, back, rfl, by simp [same], ?_⟩
              rw [next]
              rfl

/-- As many lines are read as there are readings, and each gives the reading at its place. -/
theorem exists_readings_of_line {position : Position} {front back : List Text} {line : Text}
    (reached : front.length < (environment.readings position (front ++ line :: back)).length) :
    ∃ earlier later, earlier.length = front.length ∧
      environment.readings position (front ++ line :: back) = earlier ++
        environment.readLine (environment.settings.positionAfter position front) line ::
          later := by
  have cut := List.take_append_drop front.length
    (environment.readings position (front ++ line :: back))
  rw [List.drop_eq_getElem_cons reached] at cut
  obtain ⟨other, found, rest, same, counted, reading⟩ :=
    environment.exists_line_of_readings cut.symm
  have length : front.length = other.length := by
    rw [counted, List.length_take_of_le (Nat.le_of_lt reached)]
  obtain ⟨rfl, behind⟩ := List.append_inj same length
  obtain ⟨rfl, rfl⟩ := List.cons.inj behind
  exact ⟨_, _, List.length_take_of_le (Nat.le_of_lt reached), by rw [← reading, cut]⟩

/-- When no reading fails, every line was read. -/
theorem length_readings_of_passes {position : Position} {lines : List Text}
    (passes : (environment.readings position lines).getLast?.bind Reading.cause? = none) :
    (environment.readings position lines).length = lines.length := by
  rw [getLast?_bind_cause?] at passes
  induction lines generalizing position with
  | nil => rfl
  | cons line rest inductionHypothesis =>
      rw [readings] at passes ⊢
      cases result : (environment.readLine position line).result with
      | error cause => simp [result, Reading.cause?] at passes
      | ok found =>
          simp only [result, List.findSome?_cons, Reading.cause?] at passes
          exact congrArg Nat.succ (inductionHypothesis passes)

/-- Names are noted, not warned of. -/
theorem severity_of_declarationRemarks {declaration : Declaration} {remark : Remark}
    (listed : remark ∈ environment.declarationRemarks declaration) : remark.severity = .note := by
  have named {name : Text} (found : remark ∈ environment.referenceRemarks name) :
      remark.severity = .note := by
    unfold referenceRemarks at found
    split at found
    · rw [List.mem_singleton.1 found]
      rfl
    · contradiction
  unfold declarationRemarks at listed
  split at listed
  · contradiction
  · unfold formRemarks at listed
    split at listed
    · obtain ⟨operand, _, found⟩ := List.mem_flatMap.1 listed
      cases operand with
      | label name => exact named found
      | unset => contradiction
      | number word => contradiction
    · contradiction

/-- Outside of the segments nothing is warned of. -/
theorem warnings_readOutside (line : Text) :
    Remark.warnings (environment.readOutside line).remarks = [] := by
  apply Remark.warnings_eq_nil
  intro remark listed
  unfold readOutside at listed
  split at listed
  · contradiction
  · unfold openSegment at listed
    dsimp only at listed
    split at listed
    · rw [List.mem_singleton.1 listed]
      rfl
    · split at listed <;> contradiction

/-- Inside of a segment each word that is not kept whole is warned of once. -/
theorem warnings_readInside (line : Text) :
    Remark.warnings (environment.readInside line).remarks = truncationRemarks (words line) := by
  have notes (entry : Entry) : Remark.warnings (environment.entryRemarks entry) = [] := by
    apply Remark.warnings_eq_nil
    intro remark listed
    cases entry with
    | declaration declaration => exact environment.severity_of_declarationRemarks listed
    | _ => contradiction
  have all : Remark.warnings (truncationRemarks (words line)) = truncationRemarks (words line) := by
    rw [Remark.warnings, List.filter_eq_self]
    intro remark listed
    obtain ⟨word, _, rfl⟩ := List.mem_map.1 listed
    rfl
  rw [readInside, Remark.warnings_append, notes, all, List.append_nil]

end Environment

namespace Session

variable {file : Text} {number : Nat} {readings : List Reading}

theorem locate_append (file : Text) (number : Nat) (first rest : List Reading) :
    locate file number (first ++ rest) =
      locate file number first ++ locate file (number + first.length) rest := by
  induction first generalizing number with
  | nil => rfl
  | cons reading first inductionHypothesis =>
      rw [List.cons_append, locate, locate, inductionHypothesis, List.append_assoc,
        List.length_cons, Nat.add_assoc, Nat.add_comm 1]

/-- A message belongs to the line whose reading gave the remark. -/
theorem mem_locate {message : Message} :
    message ∈ locate file number readings ↔ ∃ earlier reading later,
      readings = earlier ++ reading :: later ∧ message.remark ∈ reading.remarks ∧
        message.location = ⟨file, number + earlier.length + 1, reading.raw⟩ := by
  constructor
  · intro listed
    induction readings generalizing number with
    | nil => contradiction
    | cons reading rest inductionHypothesis =>
        rcases List.mem_append.1 listed with first | later
        · obtain ⟨remark, given, rfl⟩ := List.mem_map.1 first
          exact ⟨[], reading, rest, rfl, given, rfl⟩
        · obtain ⟨earlier, found, others, rfl, given, located⟩ := inductionHypothesis later
          refine ⟨reading :: earlier, found, others, rfl, given, ?_⟩
          rw [located, List.length_cons, Nat.add_assoc number, Nat.add_comm 1]
  · rintro ⟨earlier, reading, later, rfl, given, located⟩
    rw [locate_append, locate]
    refine List.mem_append_right _ (List.mem_append_left _ (List.mem_map.2 ⟨_, given, ?_⟩))
    rw [← located]

theorem line_of_mem_locate {message : Message} (listed : message ∈ locate file number readings) :
    number < message.location.line ∧ message.location.line ≤ number + readings.length := by
  obtain ⟨earlier, reading, later, rfl, _, located⟩ := mem_locate.1 listed
  rw [located, List.length_append, List.length_cons]
  dsimp only
  omega

/-- The messages about successive lines are in the order of the lines. -/
theorem pairwise_locate (file : Text) (number : Nat) (readings : List Reading) :
    (locate file number readings).Pairwise fun earlier later =>
      earlier.location.line ≤ later.location.line := by
  induction readings generalizing number with
  | nil => exact .nil
  | cons reading rest inductionHypothesis =>
      rw [locate, List.pairwise_append]
      refine ⟨?_, inductionHypothesis (number + 1), fun first listed later behind => ?_⟩
      · rw [List.pairwise_map]
        exact List.pairwise_of_forall fun _ _ => Nat.le_refl _
      · obtain ⟨remark, _, rfl⟩ := List.mem_map.1 listed
        exact Nat.le_of_lt (line_of_mem_locate behind).1

/-- The messages of a kind about one line are the remarks of this kind about it. -/
theorem filter_locate (file : Text) (number : Nat) (earlier later : List Reading)
    (reading : Reading) (kind : Remark → Prop) [DecidablePred kind] :
    (locate file number (earlier ++ reading :: later)).filter (fun message =>
        message.location.line = number + earlier.length + 1 ∧ kind message.remark) =
      (reading.remarks.filter kind).map
        (⟨·, ⟨file, number + earlier.length + 1, reading.raw⟩⟩) := by
  have before : (locate file number earlier).filter (fun message =>
      message.location.line = number + earlier.length + 1 ∧ kind message.remark) = [] := by
    rw [List.filter_eq_nil_iff]
    intro message listed
    have bound := (line_of_mem_locate listed).2
    simp only [decide_eq_true_eq]
    omega
  have behind : (locate file (number + earlier.length + 1) later).filter (fun message =>
      message.location.line = number + earlier.length + 1 ∧ kind message.remark) = [] := by
    rw [List.filter_eq_nil_iff]
    intro message listed
    have bound := (line_of_mem_locate listed).1
    simp only [decide_eq_true_eq]
    omega
  rw [locate_append, locate, List.filter_append, List.filter_append, before, behind,
    List.nil_append, List.append_nil, List.filter_map]
  simp [Function.comp_def]

end Session

/-- The place of a line of a listing. -/
structure Location.IsLineOf (location : Location) (name : Text) (lines : List Text) : Prop where
  named : location.file = name
  counted : 1 ≤ location.line ∧ location.line ≤ lines.length
  raw : lines[location.line - 1]? = some location.raw

theorem Location.isLineOf (name : Text) (front : List Text) (line : Text) (back : List Text) :
    IsLineOf ⟨name, front.length + 1, line⟩ name (front ++ line :: back) where
  named := rfl
  counted := by
    rw [List.length_append, List.length_cons]
    dsimp only
    omega
  raw := by simp

namespace Environment

variable (environment : Environment) {file : Text} {lines : List Text}

/-- A location and what is read from the line that stands there. -/
inductive ReadsAt (file : Text) (lines : List Text) : Location → Reading → Prop where
  | intro {front back : List Text} {line : Text} (cut : lines = front ++ line :: back) :
      ReadsAt file lines ⟨file, front.length + 1, line⟩ (environment.readBehind front line)

theorem isLineOf_of_readsAt {location : Location} {reading : Reading}
    (reads : environment.ReadsAt file lines location reading) : location.IsLineOf file lines := by
  cases reads with
  | intro cut => exact cut ▸ Location.isLineOf ..

/-- Every reading of a listing has its place there. -/
theorem readsAt_of_readings {earlier later : List Reading} {reading : Reading}
    (read : environment.readings .outside lines = earlier ++ reading :: later) :
    environment.ReadsAt file lines ⟨file, earlier.length + 1, reading.raw⟩ reading := by
  obtain ⟨front, line, back, cut, counted, rfl⟩ := environment.exists_line_of_readings read
  rw [readLine_raw, ← counted]
  exact .intro cut

end Environment

namespace Session

variable (environment : Environment) (file source : Text)

theorem messages_convert (session : Session) :
    (session.convert environment source).2.messages = session.messages ++
      locate session.file session.line (environment.readings .outside (Text.lines source)) := by
  rw [convert]
  split <;> rfl

theorem line_convert (session : Session) :
    (session.convert environment source).2.line =
      session.line + (environment.readings .outside (Text.lines source)).length := by
  rw [convert]
  split <;> rfl

theorem defined_convert (session : Session) :
    (session.convert environment source).2.defined = session.defined.insertAll
      ((environment.readings .outside (Text.lines source)).filterMap Reading.label) := by
  rw [convert]
  split <;> rfl

/-- A conversion fails where its last reading does. -/
theorem exists_reading_of_error {failure : Failure}
    (failed : ((start file).convert environment source).1 = .error failure) :
    ∃ earlier reading, environment.readings .outside (Text.lines source) = earlier ++ [reading] ∧
      reading.cause? = some failure.cause ∧
      failure.location = ⟨file, earlier.length + 1, reading.raw⟩ := by
  rw [convert] at failed
  split at failed
  · rename_i cause found
    obtain ⟨reading, last, caused⟩ := Option.bind_eq_some_iff.1 found
    obtain ⟨earlier, cut⟩ := List.getLast?_eq_some_iff.1 last
    obtain rfl := Except.error.inj failed
    refine ⟨earlier, reading, cut, caused, ?_⟩
    rw [location, absorb, cut]
    simp [start]
  · contradiction

theorem length_of_ok {text : Text}
    (converted : ((start file).convert environment source).1 = .ok text) :
    (environment.readings .outside (Text.lines source)).length = (Text.lines source).length := by
  rw [convert] at converted
  split at converted
  · contradiction
  · rename_i passes
    exact environment.length_readings_of_passes passes

/-- Each word that is not kept whole in a line inside of a segment is warned of there. -/
theorem warnings_convert {front back : List Text} {line : Text}
    (cut : Text.lines source = front ++ line :: back)
    (reached : front.length < ((start file).convert environment source).2.line) :
    ((start file).convert environment source).2.messages.filter (fun message =>
        message.location.line = front.length + 1 ∧ message.remark.severity = .warning) =
      if environment.settings.positionAfter .outside front = .inside then
        ((words line).filter Word.truncated).map fun word =>
          ⟨.truncated word.text, ⟨file, front.length + 1, line⟩⟩
      else [] := by
  have messages : ((start file).convert environment source).2.messages =
      locate file 0 (environment.readings .outside (front ++ line :: back)) :=
    cut ▸ messages_convert environment source (start file)
  have read : ((start file).convert environment source).2.line =
      (environment.readings .outside (front ++ line :: back)).length :=
    cut ▸ (line_convert environment source (start file)).trans (Nat.zero_add _)
  rw [read] at reached
  obtain ⟨earlier, later, counted, found⟩ := environment.exists_readings_of_line reached
  have warned := filter_locate file 0 earlier later
    (environment.readLine (environment.settings.positionAfter .outside front) line)
    fun remark => remark.severity = .warning
  rw [Nat.zero_add, counted, environment.readLine_raw, ← found, ← messages] at warned
  rw [warned, ← Remark.warnings]
  cases environment.settings.positionAfter .outside front with
  | outside => rw [Environment.readLine, environment.warnings_readOutside]; rfl
  | inside =>
      rw [Environment.readLine, environment.warnings_readInside, if_pos rfl,
        Environment.truncationRemarks, List.map_map]
      rfl

/-- Messages and failures have the place of the line that is read when they come up: messages in the
order of the lines, and a failure at the last line that is read. Each word that is not kept whole in
a line inside of a segment is warned of there, and nothing else is warned of. -/
theorem convert_located :
    let lines := Text.lines source
    let converted := (start file).convert environment source
    let after := converted.2
    (∀ message ∈ after.messages,
      message.location.IsLineOf file lines ∧ message.location.line ≤ after.line ∧
      ∃ reading, environment.ReadsAt file lines message.location reading ∧
        message.remark ∈ reading.remarks) ∧
    (after.messages.Pairwise fun earlier later =>
      earlier.location.line ≤ later.location.line) ∧
    (∀ text, converted.1 = .ok text → after.line = lines.length) ∧
    (∀ failure, converted.1 = .error failure →
      failure.location.IsLineOf file lines ∧ failure.location.line = after.line ∧
      (∀ message ∈ after.messages, message.location.line ≤ failure.location.line) ∧
      ∃ reading, environment.ReadsAt file lines failure.location reading ∧
        reading.cause? = some failure.cause) ∧
    ∀ front line back, lines = front ++ line :: back → front.length < after.line →
      after.messages.filter (fun message =>
          message.location.line = front.length + 1 ∧ message.remark.severity = .warning) =
        if environment.settings.positionAfter .outside front = .inside then
          ((words line).filter Word.truncated).map fun word =>
            ⟨.truncated word.text, ⟨file, front.length + 1, line⟩⟩
        else [] := by
  intro lines converted after
  have messages : after.messages =
      locate file 0 (environment.readings .outside lines) :=
    messages_convert environment source (start file)
  have read : after.line = (environment.readings .outside lines).length :=
    (line_convert environment source (start file)).trans (Nat.zero_add _)
  have bound : ∀ message ∈ after.messages, message.location.line ≤ after.line := by
    intro message listed
    rw [messages] at listed
    have last := (line_of_mem_locate listed).2
    rwa [Nat.zero_add, ← read] at last
  refine ⟨fun message listed => ?_, messages ▸ pairwise_locate .., ?_, ?_, ?_⟩
  · have within := bound message listed
    rw [messages] at listed
    obtain ⟨earlier, reading, later, cut, given, located⟩ := mem_locate.1 listed
    have reads : environment.ReadsAt file lines message.location reading := by
      rw [located, Nat.zero_add]
      exact environment.readsAt_of_readings cut
    exact ⟨environment.isLineOf_of_readsAt reads, within, reading, reads, given⟩
  · intro text accepted
    rw [read]
    exact length_of_ok environment file source accepted
  · intro failure failed
    obtain ⟨earlier, reading, cut, caused, located⟩ :=
      exists_reading_of_error environment file source failed
    have reads : environment.ReadsAt file lines failure.location reading := by
      rw [located]
      exact environment.readsAt_of_readings cut
    have last : failure.location.line = after.line := by
      rw [located, read, cut, List.length_append, List.length_singleton]
    exact ⟨environment.isLineOf_of_readsAt reads, last, last ▸ bound, reading, reads, caused⟩
  · intro front line back cut reached
    exact warnings_convert environment file source cut reached

end Session

end DataSegment
