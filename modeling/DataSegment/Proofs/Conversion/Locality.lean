import DataSegment.Proofs.Conversion.Translation
import DataSegment.Proofs.Text.Lines

namespace DataSegment

open Assembly Listing
open Text (decimal)

namespace Environment

variable (environment : Environment)

/-- What a line of data is translated to. -/
def translation (line : Location) : Text :=
  (environment.readInside line.raw).output.flatMap
    (Output.render environment.settings.symbolPrefix)

/-- A segment is a blank line, its header, the alignment and its translated lines. -/
def segmentText (segment : Segment) : Text :=
  ['\n'] ++ (environment.settings.header? segment.opening.raw).getD [] ++ "\n.align ".toList ++
    decimal environment.settings.alignment.toNat ++ ['\n'] ++
    segment.statements.flatMap environment.translation

def segmentLabels (segment : Segment) : List Text :=
  segment.statements.filterMap fun line => (environment.readInside line.raw).label

/-- The segments are followed by a blank line and the labels, each declared once. -/
def listingText (segments : List Segment) : Text :=
  segments.flatMap environment.segmentText ++ ['\n'] ++
    globalLines environment.settings.symbolPrefix
      (Names.empty.insertAll (segments.flatMap environment.segmentLabels))

/-- The findings of a segment that do not fail are put together to its text. -/
theorem render_segmentFindings {segment : Segment}
    (opens : environment.settings.opens segment.opening.raw = true)
    (passes : (environment.openingFinding segment.opening).failure? = none) :
    (environment.segmentFindings segment).flatMap (fun finding =>
        finding.output.flatMap (Output.render environment.settings.symbolPrefix)) =
      environment.segmentText segment := by
  rcases environment.readOutside_of_opens opens with ⟨header, named, read⟩ | ⟨_, cause, failed⟩
  · have opened : (environment.openingFinding segment.opening).output =
        [.opening header environment.settings.alignment] := by
      simp [openingFinding, Finding.output, Reading.output, read]
    rw [segmentFindings, List.flatMap_cons, opened, List.flatMap_map, segmentText, named,
      List.flatMap_singleton]
    rfl
  · simp [Finding.failure?, openingFinding, Reading.cause?, failed] at passes

/-- Findings that do not fail are put together segment by segment. -/
theorem render_findings {segments : List Segment}
    (opens : ∀ segment ∈ segments, environment.settings.opens segment.opening.raw = true)
    (passes : (segments.flatMap environment.segmentFindings).findSome? Finding.failure? = none) :
    ((segments.flatMap environment.segmentFindings).flatMap Finding.output).flatMap
        (Output.render environment.settings.symbolPrefix) =
      segments.flatMap environment.segmentText := by
  rw [List.flatMap_assoc, List.flatMap_assoc]
  apply List.flatMap_congr
  intro segment member
  apply environment.render_segmentFindings (opens segment member)
  refine List.findSome?_eq_none_iff.1 passes _ (List.mem_flatMap.2 ⟨segment, member, ?_⟩)
  exact List.mem_cons_self ..

theorem filterMap_label_findings (segments : List Segment) :
    (segments.flatMap environment.segmentFindings).filterMap Finding.label =
      segments.flatMap environment.segmentLabels := by
  rw [List.filterMap_flatMap]
  exact List.flatMap_congr fun segment _ => environment.filterMap_label_segmentFindings segment

/-- A listing converts to the text of its segments unless one of their findings fails. -/
theorem convert_start (file source : Text) :
    ((Session.start file).convert environment source).1 =
      match ((segments environment.settings (locations file 0 (Text.lines source))).flatMap
          environment.segmentFindings).findSome? Finding.failure? with
      | some failure => .error failure
      | none => .ok (environment.listingText
          (segments environment.settings (locations file 0 (Text.lines source)))) := by
  have failures : environment.relevant (Session.start file).file (Session.start file).line source =
      environment.relevant file 0 source := rfl
  rw [Session.convert_eq, failures]
  cases first : (environment.relevant file 0 source).findSome? Finding.failure? with
  | some failure =>
      rw [relevant] at first
      rw [first]
  | none =>
      have opens : ∀ segment ∈ segments environment.settings (locations file 0 (Text.lines source)),
          environment.settings.opens segment.opening.raw = true :=
        fun segment member => (mem_segments member).2.1
      obtain ⟨printed, defined⟩ := environment.translated_of_accepted first
      rw [relevant] at first printed defined
      have text := environment.render_findings opens first
      rw [first, Session.pending_reading, Session.defined_reading, printed, defined, listingText,
        ← text, environment.filterMap_label_findings]
      rfl

end Environment

/-- A line that must be accepted: the one that opens a segment, or a line of data below it. -/
structure Excerpt where
  opening : Location
  statement : Option Location
  deriving DecidableEq, Repr

namespace Excerpt

def last (excerpt : Excerpt) : Location := excerpt.statement.getD excerpt.opening

def lines (excerpt : Excerpt) : List Text :=
  excerpt.opening.raw :: excerpt.statement.toList.map Location.raw

end Excerpt

/-- The lines of a segment that must be accepted, in order. -/
def Segment.excerpts (segment : Segment) : List Excerpt :=
  ⟨segment.opening, none⟩ :: segment.statements.map fun line => ⟨segment.opening, some line⟩

namespace Environment

variable (environment : Environment)

/-- The conversion of a listing that has nothing but an excerpt. -/
def alone (file : Text) (excerpt : Excerpt) : Except Failure Text :=
  ((Session.start file).convert environment (Text.unlines excerpt.lines)).1

/-- The failure of an excerpt alone, at the place where its last line stands in the listing. -/
def failure? (file : Text) (excerpt : Excerpt) : Option Failure :=
  match environment.alone file excerpt with
  | .error failure => some ⟨failure.cause, excerpt.last⟩
  | .ok _ => none

theorem alone_opening (file : Text) {opening : Location} (solid : '\n' ∉ opening.raw)
    (opens : environment.settings.opens opening.raw = true) :
    environment.alone file ⟨opening, none⟩ =
      match (environment.openingFinding opening).failure? with
      | some failure => .error ⟨failure.cause, ⟨file, 1, opening.raw⟩⟩
      | none => .ok (environment.listingText [⟨opening, []⟩]) := by
  have cut : Text.lines (Text.unlines (Excerpt.mk opening none).lines) = [opening.raw] :=
    Text.lines_unlines (by simpa [Excerpt.lines] using solid)
  have parts : segments environment.settings (locations file 0 [opening.raw]) =
      [⟨⟨file, 1, opening.raw⟩, []⟩] := by
    simp [locations, segments, opens]
  rw [alone, convert_start, cut, parts]
  cases failed : (environment.readOutside opening.raw).cause? with
  | some cause =>
      simp [segmentFindings, Segment.statements, openingFinding, Finding.failure?, failed]
  | none =>
      have same : environment.listingText [⟨⟨file, 1, opening.raw⟩, []⟩] =
          environment.listingText [⟨opening, []⟩] := rfl
      simp [segmentFindings, Segment.statements, openingFinding, Finding.failure?, failed, same]

theorem alone_statement (file : Text) {opening line : Location} (solid : '\n' ∉ opening.raw)
    (whole : '\n' ∉ line.raw) (opens : environment.settings.opens opening.raw = true)
    (goes : closes line.raw = false) (speaks : silent line.raw = false) :
    environment.alone file ⟨opening, some line⟩ =
      match (environment.openingFinding opening).failure? with
      | some failure => .error ⟨failure.cause, ⟨file, 1, opening.raw⟩⟩
      | none =>
          match (environment.statementFinding line).failure? with
          | some failure => .error ⟨failure.cause, ⟨file, 2, line.raw⟩⟩
          | none => .ok (environment.listingText [⟨opening, [line]⟩]) := by
  have cut : Text.lines (Text.unlines (Excerpt.mk opening (some line)).lines) =
      [opening.raw, line.raw] :=
    Text.lines_unlines (by simpa [Excerpt.lines] using ⟨solid, whole⟩)
  have parts : segments environment.settings (locations file 0 [opening.raw, line.raw]) =
      [⟨⟨file, 1, opening.raw⟩, [⟨file, 2, line.raw⟩]⟩] := by
    simp [locations, segments, opens, goes]
  rw [alone, convert_start, cut, parts]
  cases failed : (environment.readOutside opening.raw).cause? with
  | some cause =>
      simp [segmentFindings, openingFinding, Finding.failure?, failed]
  | none =>
      cases refused : (environment.readInside line.raw).cause? with
      | some cause =>
          simp [segmentFindings, Segment.statements, openingFinding, statementFinding,
            Finding.failure?, failed, refused, speaks]
      | none =>
          have same : environment.listingText
                [⟨⟨file, 1, opening.raw⟩, [⟨file, 2, line.raw⟩]⟩] =
              environment.listingText [⟨opening, [line]⟩] := by
            simp only [listingText, List.flatMap_cons, List.flatMap_nil, segmentText,
              segmentLabels, Segment.statements, List.filter_cons, speaks]
            rfl
          simp [segmentFindings, Segment.statements, openingFinding, statementFinding,
            Finding.failure?, failed, refused, speaks, same]

theorem failure?_opening (file : Text) {opening : Location} (solid : '\n' ∉ opening.raw)
    (opens : environment.settings.opens opening.raw = true) :
    environment.failure? file ⟨opening, none⟩ = (environment.openingFinding opening).failure? := by
  rw [failure?, environment.alone_opening file solid opens]
  cases failed : (environment.readOutside opening.raw).cause? <;>
    simp [openingFinding, Finding.failure?, failed, Excerpt.last]

/-- When a segment can be opened, a line below it fails as it does in the listing. -/
theorem failure?_statement (file : Text) {opening line : Location} (solid : '\n' ∉ opening.raw)
    (whole : '\n' ∉ line.raw) (opens : environment.settings.opens opening.raw = true)
    (goes : closes line.raw = false) (speaks : silent line.raw = false)
    (passes : (environment.openingFinding opening).failure? = none) :
    environment.failure? file ⟨opening, some line⟩ =
      (environment.statementFinding line).failure? := by
  rw [failure?, environment.alone_statement file solid whole opens goes speaks, passes]
  cases failed : (environment.readInside line.raw).cause? <;>
    simp [statementFinding, Finding.failure?, failed, Excerpt.last]

/-- A segment can be opened when a header is set for it. -/
theorem failure?_opening_eq_none (file : Text) {opening : Location} (solid : '\n' ∉ opening.raw)
    (opens : environment.settings.opens opening.raw = true) :
    environment.failure? file ⟨opening, none⟩ = none ↔
      (environment.settings.header? opening.raw).isSome := by
  rw [environment.failure?_opening file solid opens]
  rcases environment.readOutside_of_opens opens with ⟨header, named, read⟩ |
    ⟨unnamed, cause, failed⟩
  · simp [openingFinding, Finding.failure?, Reading.cause?, read, named]
  · simp [openingFinding, Finding.failure?, Reading.cause?, failed, unnamed]

/-- A line that does not fail alone is translated to one line. -/
theorem alone_of_accepted (file : Text) {opening line : Location} (solid : '\n' ∉ opening.raw)
    (whole : '\n' ∉ line.raw) (opens : environment.settings.opens opening.raw = true)
    (goes : closes line.raw = false) (speaks : silent line.raw = false)
    (accepted : environment.failure? file ⟨opening, some line⟩ = none) :
    environment.alone file ⟨opening, some line⟩ =
        .ok (environment.listingText [⟨opening, [line]⟩]) ∧
      ∃ data : Line, environment.translation line =
        data.render environment.settings.symbolPrefix ++ ['\n'] := by
  have converted := environment.alone_statement file solid whole opens goes speaks
  cases passes : (environment.openingFinding opening).failure? with
  | some failure => simp [failure?, converted, passes] at accepted
  | none =>
      rw [environment.failure?_statement file solid whole opens goes speaks passes] at accepted
      rw [passes, accepted] at converted
      refine ⟨converted, ?_⟩
      cases result : (environment.readInside line.raw).result with
      | error cause =>
          simp [statementFinding, Finding.failure?, Reading.cause?, result] at accepted
      | ok read =>
          obtain ⟨next, output⟩ := read
          obtain ⟨_, data, rfl⟩ := environment.readInside_of_speaks goes speaks result
          refine ⟨data, ?_⟩
          have printed : (environment.readInside line.raw).output = [.data data] := by
            simp [Reading.output, result]
          rw [translation, printed, List.flatMap_singleton, Output.render]

/-- The first failure among the excerpts of a segment is the first among its findings. -/
theorem findSome?_excerpts (file : Text) {segment : Segment}
    (solid : '\n' ∉ segment.opening.raw)
    (opens : environment.settings.opens segment.opening.raw = true)
    (each : ∀ line ∈ segment.statements,
      '\n' ∉ line.raw ∧ closes line.raw = false ∧ silent line.raw = false) :
    segment.excerpts.findSome? (environment.failure? file) =
      (environment.segmentFindings segment).findSome? Finding.failure? := by
  rw [Segment.excerpts, segmentFindings, List.findSome?_cons, List.findSome?_cons,
    environment.failure?_opening file solid opens]
  cases passes : (environment.openingFinding segment.opening).failure? with
  | some failure => rfl
  | none =>
      dsimp only
      rw [List.findSome?_map, List.findSome?_map]
      apply Results.findSome?_congr
      intro line member
      obtain ⟨whole, goes, speaks⟩ := each line member
      exact environment.failure?_statement file solid whole opens goes speaks passes

theorem findSome?_flatMap_excerpts (file : Text) {segments : List Segment}
    (each : ∀ segment ∈ segments, '\n' ∉ segment.opening.raw ∧
      environment.settings.opens segment.opening.raw = true ∧
      ∀ line ∈ segment.statements,
        '\n' ∉ line.raw ∧ closes line.raw = false ∧ silent line.raw = false) :
    (segments.flatMap Segment.excerpts).findSome? (environment.failure? file) =
      (segments.flatMap environment.segmentFindings).findSome? Finding.failure? := by
  induction segments with
  | nil => rfl
  | cons segment segments inductionHypothesis =>
      obtain ⟨solid, opens, lines⟩ := each segment (List.mem_cons_self ..)
      rw [List.flatMap_cons, List.flatMap_cons, List.findSome?_append, List.findSome?_append,
        environment.findSome?_excerpts file solid opens lines,
        inductionHypothesis fun other member => each other (List.mem_cons_of_mem _ member)]

end Environment

/-- A listing converts when each of its excerpts converts alone, and fails as the first that does
not. Its text has each segment with the lines that its excerpts are translated to. -/
theorem Session.convert_locality (environment : Environment) (file source : Text) :
    let parts := segments environment.settings (locations file 0 (Text.lines source))
    ((Session.start file).convert environment source).1 =
      (match (parts.flatMap Segment.excerpts).findSome? (environment.failure? file) with
      | some failure => .error failure
      | none => .ok (environment.listingText parts)) ∧
    ∀ segment ∈ parts,
      (environment.failure? file ⟨segment.opening, none⟩ = none ↔
        (environment.settings.header? segment.opening.raw).isSome) ∧
      ∀ line ∈ segment.statements,
        environment.failure? file ⟨segment.opening, some line⟩ = none →
        environment.alone file ⟨segment.opening, some line⟩ =
          .ok (environment.listingText [⟨segment.opening, [line]⟩]) ∧
        ∃ data : Line, environment.translation line =
          data.render environment.settings.symbolPrefix ++ ['\n'] := by
  intro parts
  have each : ∀ segment ∈ parts, '\n' ∉ segment.opening.raw ∧
      environment.settings.opens segment.opening.raw = true ∧
      ∀ line ∈ segment.statements,
        '\n' ∉ line.raw ∧ closes line.raw = false ∧ silent line.raw = false := by
    intro segment member
    have solid {line : Location} (listed : line ∈ locations file 0 (Text.lines source)) :
        '\n' ∉ line.raw := Text.not_mem_of_mem_lines (raw_of_mem_locations listed)
    obtain ⟨first, opens, rest⟩ := mem_segments member
    exact ⟨solid first, opens, fun line listed => ⟨solid (rest line listed).1,
      (rest line listed).2⟩⟩
  constructor
  · rw [environment.convert_start, environment.findSome?_flatMap_excerpts file each]
  · intro segment member
    obtain ⟨solid, opens, lines⟩ := each segment member
    refine ⟨environment.failure?_opening_eq_none file solid opens, fun line listed accepted => ?_⟩
    obtain ⟨whole, goes, speaks⟩ := lines line listed
    exact environment.alone_of_accepted file solid whole opens goes speaks accepted

end DataSegment
