import DataSegment.Conversion.Session
import DataSegment.Proofs.Results

namespace DataSegment

open Assembly Listing

namespace Listing

/-- The words of a line that are kept. -/
def keptWords (line : Text) : List Text := (words line).map Word.text

/-- The line ends a segment. -/
def closes (line : Text) : Bool :=
  match keptWords line with
  | [first] => first == "end".toList
  | [first, second] => first == "end".toList || second == "ends".toList
  | _ => false

/-- The line is blank, is a comment or assumes something. -/
def silent (line : Text) : Bool :=
  hasNoWord line ||
    match keptWords line with
    | first :: _ :: _ => first == "assume".toList
    | _ => false

theorem keptWords_eq_nil {line : Text} : keptWords line = [] ↔ hasNoWord line = true := by
  rw [keptWords, List.map_eq_nil_iff, words]
  split <;> simp_all

theorem ofWords_of_closes {line : Text} (last : closes line = true) :
    Entry.ofWords (keptWords line) = .closing := by
  unfold closes at last
  split at last
  · rename_i first same
    rw [same, Entry.ofWords, if_pos (by simpa using last)]
  · rename_i first second same
    rw [same, Entry.ofWords, if_pos]
    simpa [or_comm] using last
  · simp at last

theorem ofWords_of_silent {line : Text} (goes : closes line = false) (quiet : silent line = true) :
    Entry.ofWords (keptWords line) = .ignored := by
  rw [silent, Bool.or_eq_true] at quiet
  rcases quiet with blank | assumes
  · rw [keptWords_eq_nil.2 blank, Entry.ofWords]
  · unfold closes at goes
    split at assumes
    · rename_i first second rest same
      have word : first = "assume".toList := by simpa using assumes
      rw [same] at goes ⊢
      rw [Entry.ofWords, if_neg, if_pos word]
      rintro ⟨rfl, closing⟩
      rcases closing with closing | closing <;> simp [closing] at goes
    · simp at assumes

/-- Any other line has an entry of its own. -/
theorem ofWords_of_speaks {line : Text} (goes : closes line = false)
    (speaks : silent line = false) :
    Entry.ofWords (keptWords line) ≠ .closing ∧ Entry.ofWords (keptWords line) ≠ .ignored := by
  rw [silent, Bool.or_eq_false_iff] at speaks
  obtain ⟨filled, other⟩ := speaks
  unfold closes at goes
  cases same : keptWords line with
  | nil => simp [keptWords_eq_nil.1 same] at filled
  | cons first rest =>
      rw [same] at goes other
      cases rest with
      | nil =>
          rw [Entry.ofWords, if_neg (by simpa using goes)]
          simp
      | cons second rest =>
          have assumes : first ≠ "assume".toList := by simpa using other
          rw [Entry.ofWords, if_neg, if_neg assumes]
          · split
            · simp
            · unfold Entry.ofDeclaration
              split
              · simp
              · split <;> simp
          · rintro ⟨rfl, closing⟩
            rcases closing with closing | closing <;> simp [closing] at goes

end Listing

open Listing (closes silent)

/-- A segment that is converted: the line that opens it and the lines before the one that closes
it. -/
structure Segment where
  opening : Location
  body : List Location
  deriving DecidableEq, Repr

/-- The lines of a file after a number of lines that were read. -/
def locations (file : Text) (number : Nat) : List Text → List Location
  | [] => []
  | raw :: rest => ⟨file, number + 1, raw⟩ :: locations file (number + 1) rest

theorem raw_of_mem_locations {file : Text} {number : Nat} {lines : List Text} {line : Location}
    (member : line ∈ locations file number lines) : line.raw ∈ lines := by
  induction lines generalizing number with
  | nil => simp [locations] at member
  | cons raw rest inductionHypothesis =>
      rcases List.mem_cons.1 member with rfl | member
      · exact List.mem_cons_self ..
      · exact List.mem_cons_of_mem _ (inductionHypothesis member)

/-- The line opens a segment that is not skipped. -/
def Settings.opens (settings : Settings) (line : Text) : Bool :=
  match segmentName? line with
  | none => false
  | some name => !settings.skippedSections.any (Text.sameLetters (segmentKey name))

/-- The segments of a listing that are converted, in order. What stands between them says
nothing. -/
def segments (settings : Settings) : List Location → List Segment
  | [] => []
  | line :: rest =>
      if settings.opens line.raw then
        ⟨line, rest.takeWhile fun other => !closes other.raw⟩ ::
          segments settings (rest.dropWhile fun other => !closes other.raw).tail
      else segments settings rest
termination_by lines => lines.length
decreasing_by
  · have bound := (List.dropWhile_sublist (l := rest) fun other => !closes other.raw).length_le
    simp only [List.length_tail, List.length_cons]
    omega
  · simp

namespace Segment

/-- The lines of a segment that are neither blank nor comments nor assumptions. -/
def statements (segment : Segment) : List Location :=
  segment.body.filter fun line => !silent line.raw

end Segment

/-- The lines of a segment stand in the listing and are what they are taken for. -/
theorem mem_segments {settings : Settings} {lines : List Location} {segment : Segment}
    (member : segment ∈ segments settings lines) :
    segment.opening ∈ lines ∧ settings.opens segment.opening.raw = true ∧
      ∀ line ∈ segment.statements,
        line ∈ lines ∧ closes line.raw = false ∧ silent line.raw = false := by
  induction lines using segments.induct settings with
  | case1 => simp [segments] at member
  | case2 line rest opens inductionHypothesis =>
      rw [segments, if_pos opens] at member
      rcases List.mem_cons.1 member with rfl | member
      · refine ⟨List.mem_cons_self .., opens, fun other listed => ?_⟩
        obtain ⟨inside, speaks⟩ := List.mem_filter.1 listed
        have goes := List.all_eq_true.1 List.all_takeWhile other inside
        have known := (List.takeWhile_prefix _).subset inside
        exact ⟨List.mem_cons_of_mem _ known, by simpa using goes, by simpa using speaks⟩
      · have part {other : Location}
            (known : other ∈ (rest.dropWhile fun other => !closes other.raw).tail) :
            other ∈ line :: rest :=
          List.mem_cons_of_mem _ ((List.dropWhile_sublist _).subset (List.mem_of_mem_tail known))
        obtain ⟨first, starts, each⟩ := inductionHypothesis member
        exact ⟨part first, starts, fun other listed => ⟨part (each other listed).1,
          (each other listed).2⟩⟩
  | case3 line rest rests inductionHypothesis =>
      rw [segments, if_neg rests] at member
      obtain ⟨first, starts, each⟩ := inductionHypothesis member
      exact ⟨List.mem_cons_of_mem _ first, starts, fun other listed =>
        ⟨List.mem_cons_of_mem _ (each other listed).1, (each other listed).2⟩⟩

/-- The header that is set for the segment that a line opens. -/
def Settings.header? (settings : Settings) (line : Text) : Option Text :=
  (segmentName? line).bind fun name =>
    (settings.sections.find? fun entry => Text.sameLetters (segmentKey name) entry.1).map Prod.snd

namespace Environment

variable (environment : Environment) {line : Text}

theorem readOutside_label (line : Text) : (environment.readOutside line).label = none := by
  unfold readOutside
  split <;> rfl

theorem readOutside_of_rests (rests : environment.settings.opens line = false) :
    (environment.readOutside line).result = .ok (.outside, []) := by
  unfold Settings.opens at rests
  unfold readOutside
  cases named : segmentName? line with
  | none => rfl
  | some name =>
      simp only [named, Bool.not_eq_eq_eq_not, Bool.not_false] at rests
      dsimp only
      rw [openSegment, if_pos rests]

/-- A segment is opened with its header, and without one it cannot be opened. -/
theorem readOutside_of_opens (opens : environment.settings.opens line = true) :
    (∃ header, environment.settings.header? line = some header ∧
      (environment.readOutside line).result =
        .ok (.inside, [.opening header environment.settings.alignment])) ∨
    (environment.settings.header? line = none ∧
      ∃ cause, (environment.readOutside line).result = .error cause) := by
  unfold Settings.opens at opens
  unfold readOutside Settings.header?
  split at opens
  · simp at opens
  · rename_i name same
    rw [same]
    dsimp only
    rw [openSegment, if_neg (by simpa using opens), Option.bind_some]
    split
    · rename_i entry found
      exact .inl ⟨entry.2, by rw [found, Option.map_some], rfl⟩
    · rename_i missing
      exact .inr ⟨by rw [missing, Option.map_none], _, rfl⟩

theorem readInside_of_closes (last : closes line = true) :
    (environment.readInside line).result = .ok (.outside, []) ∧
      (environment.readInside line).label = none := by
  have entry := ofWords_of_closes last
  rw [keptWords] at entry
  simp only [readInside, entry]
  exact ⟨rfl, rfl⟩

theorem readInside_of_silent (goes : closes line = false) (quiet : silent line = true) :
    (environment.readInside line).result = .ok (.inside, []) ∧
      (environment.readInside line).label = none := by
  have entry := ofWords_of_silent goes quiet
  rw [keptWords] at entry
  simp only [readInside, entry]
  exact ⟨rfl, rfl⟩

/-- Any other line that does not fail becomes one line of data. -/
theorem readInside_of_speaks (goes : closes line = false) (speaks : silent line = false)
    {next : Position} {output : List Output}
    (read : (environment.readInside line).result = .ok (next, output)) :
    next = .inside ∧ ∃ data, output = [.data data] := by
  obtain ⟨open', heard⟩ := ofWords_of_speaks goes speaks
  rw [keptWords] at open' heard
  have entry : environment.readEntry (Entry.ofWords ((words line).map Word.text)) =
      .ok (next, output) := read
  unfold readEntry at entry
  split at entry
  · contradiction
  · contradiction
  · obtain ⟨value, _, same⟩ := Results.map_eq_ok_iff.1 entry
    obtain ⟨rfl, rfl⟩ := Prod.mk.inj same
    exact ⟨rfl, _, rfl⟩
  · obtain ⟨data, _, same⟩ := Results.map_eq_ok_iff.1 entry
    obtain ⟨rfl, rfl⟩ := Prod.mk.inj same
    exact ⟨rfl, _, rfl⟩
  · simp at entry
  · simp at entry

end Environment

/-- What is read from a line and where. -/
abbrev Finding := Location × Reading

namespace Finding

def passes (finding : Finding) : Bool := finding.2.cause?.isNone

def output (finding : Finding) : List Output := finding.2.output

def label (finding : Finding) : Option Text := finding.2.label

def failure? (finding : Finding) : Option Failure :=
  finding.2.cause?.map fun cause => ⟨cause, finding.1⟩

/-- A finding says something unless it passes without output or a label. -/
def speaks (finding : Finding) : Bool :=
  !(finding.passes && finding.output.isEmpty && finding.label.isNone)

theorem failure?_eq_none {finding : Finding} :
    finding.failure? = none ↔ finding.passes = true := by
  simp [failure?, passes]

theorem output_of_fails {finding : Finding} (fails : finding.passes = false) :
    finding.output = [] := by
  unfold passes Reading.cause? at fails
  unfold output Reading.output
  split <;> simp_all

theorem of_silent {finding : Finding} (silent : finding.speaks = false) :
    finding.failure? = none ∧ finding.output = [] ∧ finding.label = none := by
  simp only [speaks, Bool.not_eq_eq_eq_not, Bool.not_false, Bool.and_eq_true, List.isEmpty_iff,
    Option.isNone_iff_eq_none] at silent
  exact ⟨failure?_eq_none.2 silent.1.1, silent.1.2, silent.2⟩

end Finding

/-- The findings up to the first that fails. -/
def upToFailure : List Finding → List Finding
  | [] => []
  | finding :: rest =>
      if finding.passes then finding :: upToFailure rest else [finding]

theorem upToFailure_eq (findings : List Finding) :
    upToFailure findings = findings.takeWhile Finding.passes ++
      (findings.find? fun finding => !finding.passes).toList := by
  induction findings with
  | nil => rfl
  | cons finding rest inductionHypothesis =>
      cases passes : finding.passes <;> simp [upToFailure, passes, inductionHypothesis]

/-- The findings that say something, up to the first that fails. -/
def decisive (findings : List Finding) : List Finding :=
  (upToFailure findings).filter Finding.speaks

/-- A finding says nothing when it adds neither output nor a label. -/
theorem decisive_cons_of_silent {finding : Finding} {position : Position}
    (read : finding.2.result = .ok (position, [])) (unnamed : finding.2.label = none)
    (rest : List Finding) : decisive (finding :: rest) = decisive rest := by
  have passes : finding.passes = true := by simp [Finding.passes, Reading.cause?, read]
  have silent : finding.speaks = false := by
    simp [Finding.speaks, Finding.output, Finding.label, Reading.output, passes, read, unnamed]
  rw [decisive, upToFailure, if_pos passes, List.filter_cons_of_neg (by simp [silent]), ← decisive]

theorem decisive_cons_congr (finding : Finding) {rest other : List Finding}
    (same : decisive rest = decisive other) :
    decisive (finding :: rest) = decisive (finding :: other) := by
  unfold decisive at same ⊢
  rw [upToFailure, upToFailure]
  split
  · rw [List.filter_cons, List.filter_cons, same]
  · rfl

theorem decisive_append_congr (first : List Finding) {rest other : List Finding}
    (same : decisive rest = decisive other) :
    decisive (first ++ rest) = decisive (first ++ other) := by
  induction first with
  | nil => exact same
  | cons finding first inductionHypothesis =>
      exact decisive_cons_congr finding inductionHypothesis

theorem decisive_cons_of_error {finding : Finding} {cause : Cause}
    (failed : finding.2.result = .error cause) (rest other : List Finding) :
    decisive (finding :: rest) = decisive (finding :: other) := by
  have fails : ¬finding.passes = true := by simp [Finding.passes, Reading.cause?, failed]
  rw [decisive, decisive, upToFailure, upToFailure, if_neg fails, if_neg fails]

/-- The first failure among findings is the one that is decisive. -/
theorem findSome?_decisive (findings : List Finding) :
    (decisive findings).findSome? Finding.failure? = findings.findSome? Finding.failure? := by
  induction findings with
  | nil => rfl
  | cons finding rest inductionHypothesis =>
      unfold decisive at inductionHypothesis ⊢
      rw [upToFailure, List.findSome?_cons]
      cases passes : finding.passes with
      | true =>
          rw [if_pos rfl, Finding.failure?_eq_none.2 passes, List.filter_cons]
          split
          · rw [List.findSome?_cons, Finding.failure?_eq_none.2 passes]
            exact inductionHypothesis
          · exact inductionHypothesis
      | false =>
          have speaks : finding.speaks = true := by simp [Finding.speaks, passes]
          have fails : finding.failure? ≠ none := by simp [Finding.failure?_eq_none, passes]
          obtain ⟨failure, failed⟩ := Option.ne_none_iff_exists'.1 fails
          simp [speaks, failed]

theorem flatMap_output_filter (findings : List Finding) :
    (findings.filter Finding.speaks).flatMap Finding.output = findings.flatMap Finding.output := by
  induction findings with
  | nil => rfl
  | cons finding rest inductionHypothesis =>
      rw [List.filter_cons, List.flatMap_cons]
      split
      · rw [List.flatMap_cons, inductionHypothesis]
      · rename_i silent
        rw [(Finding.of_silent (by simpa using silent)).2.1, inductionHypothesis, List.nil_append]

theorem filterMap_label_filter (findings : List Finding) :
    (findings.filter Finding.speaks).filterMap Finding.label =
      findings.filterMap Finding.label := by
  rw [List.filterMap_filter]
  apply List.filterMap_congr
  intro finding _
  split
  · rfl
  · rename_i silent
    exact (Finding.of_silent (by simpa using silent)).2.2.symm

/-- The findings before the first that fails give the output. -/
theorem flatMap_output_decisive (findings : List Finding) :
    (decisive findings).flatMap Finding.output =
      (findings.takeWhile Finding.passes).flatMap Finding.output := by
  rw [decisive, flatMap_output_filter, upToFailure_eq, List.flatMap_append]
  cases failing : findings.find? fun finding => !finding.passes with
  | none => simp
  | some finding =>
      have fails : finding.passes = false := by simpa using List.find?_some failing
      simp [Finding.output_of_fails fails]

/-- The finding that fails may have a label, too. -/
theorem filterMap_label_decisive (findings : List Finding) :
    (decisive findings).filterMap Finding.label =
      (findings.takeWhile Finding.passes).filterMap Finding.label ++
        ((findings.find? fun finding => !finding.passes).bind Finding.label).toList := by
  rw [decisive, filterMap_label_filter, upToFailure_eq, List.filterMap_append]
  congr 1
  cases findings.find? fun finding => !finding.passes with
  | none => rfl
  | some finding => cases named : finding.label <;> simp [named]

namespace Environment

variable (environment : Environment)

/-- The findings in a listing up to the first line that fails. -/
def findings : Position → List Location → List Finding
  | _, [] => []
  | position, line :: rest =>
      (line, environment.readLine position line.raw) ::
        match (environment.readLine position line.raw).result with
        | .error _ => []
        | .ok (next, _) => findings next rest

def openingFinding (line : Location) : Finding := (line, environment.readOutside line.raw)

def statementFinding (line : Location) : Finding := (line, environment.readInside line.raw)

theorem findings_outside_cons (line : Location) (rest : List Location) :
    environment.findings .outside (line :: rest) = environment.openingFinding line ::
      match (environment.readOutside line.raw).result with
      | .error _ => []
      | .ok (next, _) => environment.findings next rest := rfl

theorem findings_inside_cons (line : Location) (rest : List Location) :
    environment.findings .inside (line :: rest) = environment.statementFinding line ::
      match (environment.readInside line.raw).result with
      | .error _ => []
      | .ok (next, _) => environment.findings next rest := rfl

/-- The findings in the lines of a segment that matter. -/
def segmentFindings (segment : Segment) : List Finding :=
  environment.openingFinding segment.opening ::
    segment.statements.map environment.statementFinding

/-- A line that opens a segment has no label. -/
theorem filterMap_label_segmentFindings (segment : Segment) :
    (environment.segmentFindings segment).filterMap Finding.label =
      segment.statements.filterMap fun line => (environment.readInside line.raw).label := by
  have unnamed : (environment.openingFinding segment.opening).label = none :=
    environment.readOutside_label _
  rw [segmentFindings, List.filterMap_cons, unnamed, List.filterMap_map]
  rfl

/-- Inside a segment the lines up to the one that closes it count, then the reading goes on
outside. -/
theorem decisive_findings_inside (opening : Location) (lines : List Location) :
    decisive (environment.findings .inside lines) =
      decisive ((Segment.mk opening (lines.takeWhile fun other => !closes other.raw)).statements.map
          environment.statementFinding ++
        environment.findings .outside (lines.dropWhile fun other => !closes other.raw).tail) := by
  induction lines with
  | nil => rfl
  | cons line rest inductionHypothesis =>
      cases last : closes line.raw with
      | true =>
          obtain ⟨read, unnamed⟩ := environment.readInside_of_closes last
          rw [findings_inside_cons, read, decisive_cons_of_silent read unnamed]
          simp [last, Segment.statements]
      | false =>
          rw [List.takeWhile_cons_of_pos (by simp [last]),
            List.dropWhile_cons_of_pos (by simp [last])]
          cases quiet : silent line.raw with
          | true =>
              obtain ⟨read, unnamed⟩ := environment.readInside_of_silent last quiet
              rw [findings_inside_cons, read, decisive_cons_of_silent read unnamed,
                inductionHypothesis]
              simp [Segment.statements, quiet]
          | false =>
              have statements (body : List Location) :
                  (Segment.mk opening (line :: body)).statements =
                    line :: (Segment.mk opening body).statements := by
                simp [Segment.statements, quiet]
              rw [statements, List.map_cons, List.cons_append]
              cases result : (environment.readInside line.raw).result with
              | error cause =>
                  rw [findings_inside_cons, decisive_cons_of_error result]
              | ok read =>
                  obtain ⟨next, output⟩ := read
                  obtain ⟨rfl, _⟩ := environment.readInside_of_speaks last quiet result
                  rw [findings_inside_cons, result]
                  exact decisive_cons_congr _ inductionHypothesis

/-- A listing is read segment by segment. -/
theorem decisive_findings_outside (lines : List Location) :
    decisive (environment.findings .outside lines) =
      decisive ((segments environment.settings lines).flatMap environment.segmentFindings) := by
  induction lines using segments.induct environment.settings with
  | case1 => rw [segments]; rfl
  | case2 line rest opens inductionHypothesis =>
      rw [segments, if_pos opens, List.flatMap_cons, segmentFindings, List.cons_append]
      rcases environment.readOutside_of_opens opens with ⟨header, _, read⟩ | ⟨_, cause, failed⟩
      · rw [findings_outside_cons, read]
        apply decisive_cons_congr
        dsimp only
        rw [environment.decisive_findings_inside line rest]
        exact decisive_append_congr _ inductionHypothesis
      · rw [findings_outside_cons]
        exact decisive_cons_of_error failed _ _
  | case3 line rest rests inductionHypothesis =>
      have read := environment.readOutside_of_rests (by simpa using rests)
      rw [segments, if_neg rests, findings_outside_cons, read,
        decisive_cons_of_silent read (environment.readOutside_label _), inductionHypothesis]

end Environment

end DataSegment
