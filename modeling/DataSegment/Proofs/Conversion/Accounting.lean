import Mathlib.Data.List.DropRight
import DataSegment.Proofs.Conversion.Registry

namespace DataSegment

open Assembly Listing
open Text (decimal)

/-- What can be asked of a session. -/
inductive Call where
  | convert (source : Text)
  | refer (name : Text)
  deriving DecidableEq, Repr

inductive Answer where
  | converted (result : Except Failure Text)
  | referred (result : Except Failure Reference)

def Answer.text? : Answer → Option Text
  | .converted (.ok text) => some text
  | _ => none

namespace Call

variable (environment : Environment)

def succeeds : Call → Bool
  | .convert source => (environment.failingLine? source).isNone
  | .refer _ => false

/-- The lines that a call translates, up to one that fails. -/
def translatedLines : Call → List Finding
  | .convert source => environment.translatedLines source
  | .refer _ => []

def translated (call : Call) : List Output :=
  (call.translatedLines environment).flatMap Finding.output

def labels : Call → List Text
  | .convert source => environment.labels source
  | .refer _ => []

end Call

/-- The text that a line of a listing is translated to. -/
def Finding.text (symbolPrefix : Text) (finding : Finding) : Text :=
  finding.output.flatMap (Output.render symbolPrefix)

/-- A line that is translated opens a section, with a blank line, the header that is set for it and
the alignment, or it aligns the data that follow, or it declares data. -/
inductive Environment.Translates (environment : Environment) (line : Text) :
    Output → Text → Prop where
  | opening (header : Text) (opens : environment.settings.opens line = true)
      (found : environment.settings.header? line = some header) :
      Translates environment line (.opening header environment.settings.alignment)
        (['\n'] ++ header ++ "\n.align ".toList ++
          decimal environment.settings.alignment.toNat ++ ['\n'])
  | align (boundary : Text) (value : UInt64)
      (aligns : Entry.ofWords (keptWords line) = .align boundary)
      (read : number? boundary = some value) :
      Translates environment line (.data ⟨none, .align value, []⟩)
        ("\t\t  .align ".toList ++ decimal value.toNat ++ ['\n'])
  | declaration (declaration : Declaration) (data : Line)
      (declares : Entry.ofWords (keptWords line) = .declaration declaration)
      (converted : environment.declarationLine declaration = .ok data) :
      Translates environment line (.data data)
        (data.labelText environment.settings.symbolPrefix ++
          data.statement.render environment.settings.symbolPrefix ++ data.commentText ++ ['\n'])

theorem Assembly.render_align (symbolPrefix : Text) (value : UInt64) :
    (Output.data ⟨none, .align value, []⟩).render symbolPrefix =
      "\t\t  .align ".toList ++ decimal value.toNat ++ ['\n'] := by
  have start : "\t\t  .align ".toList = ['\t', '\t', ' ', ' '] ++ ".align ".toList := by decide
  have plain : Line.commentText ⟨none, .align value, []⟩ = [] := rfl
  rw [start, Output.render, Line.render, plain, List.append_nil, List.append_assoc _ ".align ".toList]
  rfl

/-- The output of some lines is printed as their text, one after the other. -/
theorem program_flatMap_output (symbolPrefix : Text) (body : List Finding) (names : Names) :
    program symbolPrefix (body.flatMap Finding.output) names =
      body.flatMap (Finding.text symbolPrefix) ++ ['\n'] ++
        names.toList.flatMap fun name => ".global ".toList ++ symbolPrefix ++ name ++ ['\n'] := by
  rw [program, globalLines, List.flatMap_assoc]
  rfl

/-- A line of a segment that says something and does not fail aligns the data or declares some. -/
theorem Environment.translates_readInside (environment : Environment) {line : Text}
    (goes : closes line = false) (speaks : silent line = false)
    (passes : (environment.readInside line).cause? = none) :
    ∃ data, (environment.readInside line).output = [.data data] ∧
      environment.Translates line (.data data)
        ((Output.data data).render environment.settings.symbolPrefix) := by
  obtain ⟨going, speaking⟩ := ofWords_of_speaks goes speaks
  have read : (environment.readInside line).result =
      environment.readEntry (Entry.ofWords (keptWords line)) := rfl
  rw [Reading.cause?, read] at passes
  rw [Reading.output, read]
  cases entry : Entry.ofWords (keptWords line) with
  | closing => exact absurd entry going
  | ignored => exact absurd entry speaking
  | unknownLine word =>
      rw [entry] at passes
      contradiction
  | unknownDeclaration first second =>
      rw [entry] at passes
      contradiction
  | align boundary =>
      rw [entry, readEntry, readNumber] at passes
      cases number : number? boundary with
      | none =>
          rw [number] at passes
          contradiction
      | some value =>
          refine ⟨⟨none, .align value, []⟩, ?_, ?_⟩
          · rw [readEntry, readNumber, number]
            rfl
          · rw [render_align]
            exact .align boundary value entry number
  | declaration declaration =>
      rw [entry, readEntry] at passes
      cases converted : environment.declarationLine declaration with
      | error cause =>
          rw [converted] at passes
          contradiction
      | ok data =>
          refine ⟨data, ?_, .declaration declaration data entry converted⟩
          rw [readEntry, converted]
          rfl

/-- Every line that is translated has one output and its text. -/
theorem Environment.translates_of_mem (environment : Environment) {source : Text}
    {finding : Finding} (member : finding ∈ environment.translatedLines source) :
    ∃ output, finding.output = [output] ∧
      environment.Translates finding.1.raw output
        (finding.text environment.settings.symbolPrefix) := by
  have passed : finding.passes = true := List.mem_takeWhile_imp member
  have passes : finding.2.cause? = none := Option.isNone_iff_eq_none.1 passed
  obtain ⟨segment, listed, inside⟩ := List.mem_flatMap.1 ((List.takeWhile_prefix _).subset member)
  obtain ⟨_, opens, each⟩ := mem_segments listed
  rcases List.mem_cons.1 inside with rfl | inside
  · rcases environment.readOutside_of_opens opens with ⟨header, found, read⟩ | ⟨_, cause, failed⟩
    · have output : (environment.openingFinding segment.opening).output =
          [.opening header environment.settings.alignment] := by
        rw [Finding.output, openingFinding, Reading.output, read]
      refine ⟨_, output, ?_⟩
      rw [Finding.text, output, List.flatMap_singleton]
      exact .opening header opens found
    · rw [openingFinding, Reading.cause?, failed] at passes
      contradiction
  · obtain ⟨line, stated, rfl⟩ := List.mem_map.1 inside
    obtain ⟨_, goes, speaks⟩ := each line stated
    obtain ⟨data, output, translates⟩ := environment.translates_readInside goes speaks passes
    refine ⟨.data data, output, ?_⟩
    rw [Finding.text, Finding.output, statementFinding, output, List.flatMap_singleton]
    exact translates

/-- The line that fails opens a segment, or it has the label that it declares. -/
theorem Environment.label_failingLine? (environment : Environment) {source : Text}
    {finding : Finding} (failing : environment.failingLine? source = some finding) :
    (environment.settings.opens finding.1.raw = true ∧ finding.label = none) ∨
      ∀ name, finding.label = some name ↔ Listing.DeclaresLabel finding.1.raw name := by
  obtain ⟨segment, listed, inside⟩ := List.mem_flatMap.1 (List.mem_of_find?_eq_some failing)
  rcases List.mem_cons.1 inside with rfl | inside
  · exact .inl ⟨(mem_segments listed).2.1, environment.readOutside_label _⟩
  · obtain ⟨line, _, rfl⟩ := List.mem_map.1 inside
    exact .inr fun name => Listing.label?_eq_some

namespace Session

def answer (environment : Environment) (session : Session) : Call → Answer × Session
  | .convert source =>
      let converted := session.convert environment source
      (.converted converted.1, converted.2)
  | .refer name =>
      let referred := session.refer environment name
      (.referred referred.1, referred.2)

def run (environment : Environment) (session : Session) : List Call → List Answer × Session
  | [] => ([], session)
  | call :: calls =>
      let first := session.answer environment call
      let later := run environment first.2 calls
      (first.1 :: later.1, later.2)

variable (environment : Environment) (session : Session)

theorem run_concat (calls : List Call) (call : Call) :
    session.run environment (calls ++ [call]) =
      let before := session.run environment calls
      let last := before.2.answer environment call
      (before.1 ++ [last.1], last.2) := by
  induction calls generalizing session with
  | nil => rfl
  | cons first calls inductionHypothesis =>
      rw [List.cons_append, run, inductionHypothesis]
      rfl

theorem convert_of_accepted {source : Text} (accepted : environment.failingLine? source = none) :
    session.convert environment source =
      (.ok (program environment.settings.symbolPrefix
          (session.pending ++ environment.translated source)
          (session.defined.insertAll (environment.labels source))),
        { session.reading environment source with pending := [] }) := by
  rw [convert_eq, (environment.failingLine?_eq_none session.file session.line source).1 accepted]
  dsimp only
  rw [pending_reading, defined_reading]

theorem convert_of_refused {source : Text} {finding : Finding}
    (refused : environment.failingLine? source = some finding) :
    ∃ failure, session.convert environment source =
      (.error failure, session.reading environment source) := by
  have fails : (environment.relevant session.file session.line source).findSome?
      Finding.failure? ≠ none := by
    intro passes
    have accepted := (environment.failingLine?_eq_none session.file session.line source).2 passes
    simp [accepted] at refused
  obtain ⟨failure, first⟩ := Option.ne_none_iff_exists'.1 fails
  exact ⟨failure, by rw [convert_eq, first]⟩

/-- What a call takes and gives. A success returns what is pending; any other call adds to it. -/
structure Accounts (before : Session) (call : Call) (given : Answer) (after : Session) : Prop where
  defined : after.defined = before.defined.insertAll (call.labels environment)
  messages : before.messages <+: after.messages
  pending : after.pending =
    if call.succeeds environment then [] else before.pending ++ call.translated environment
  returned : given.text? =
    if call.succeeds environment then
      some (program environment.settings.symbolPrefix
        (before.pending ++ call.translated environment) after.defined)
    else none

/-- Every call keeps the account. -/
theorem answer_accounts (call : Call) :
    Accounts environment session call (session.answer environment call).1
      (session.answer environment call).2 := by
  cases call with
  | convert source =>
      have defined := session.defined_reading environment source
      have grows : session.messages <+: (session.reading environment source).messages :=
        List.prefix_append ..
      cases failing : environment.failingLine? source with
      | none =>
          have succeeds : (Call.convert source).succeeds environment = true := by
            rw [Call.succeeds, failing, Option.isNone_none]
          rw [answer, session.convert_of_accepted environment failing]
          constructor
          · exact defined
          · exact grows
          · rw [if_pos succeeds]
          · rw [if_pos succeeds, ← defined]
            rfl
      | some finding =>
          obtain ⟨failure, converted⟩ := session.convert_of_refused environment failing
          have fails : ¬(Call.convert source).succeeds environment = true := by
            rw [Call.succeeds, failing, Option.isNone_some]
            exact Bool.false_ne_true
          rw [answer, converted]
          constructor
          · exact defined
          · exact grows
          · rw [if_neg fails]
            exact session.pending_reading environment source
          · rw [if_neg fails]
            rfl
  | refer name =>
      have nothing : session.pending ++ Call.translated environment (.refer name) =
          session.pending := List.append_nil _
      rw [answer, refer]
      cases environment.reference name with
      | error cause => exact ⟨rfl, List.prefix_rfl, nothing.symm, rfl⟩
      | ok reference => exact ⟨rfl, List.prefix_append .., nothing.symm, rfl⟩

theorem defined_run (calls : List Call) :
    (session.run environment calls).2.defined =
      session.defined.insertAll (calls.flatMap (Call.labels environment)) := by
  induction calls generalizing session with
  | nil => rfl
  | cons call calls inductionHypothesis =>
      rw [run, inductionHypothesis, (session.answer_accounts environment call).defined,
        List.flatMap_cons, Names.insertAll_append]

/-- The lines that were translated since the last success. -/
def unreturned (calls : List Call) : List Finding :=
  (calls.rtakeWhile fun call => !call.succeeds environment).flatMap
    (Call.translatedLines environment)

/-- A success returns all lines, and any other call adds its own. -/
theorem unreturned_concat (calls : List Call) (call : Call) :
    unreturned environment (calls ++ [call]) =
      if call.succeeds environment then []
      else unreturned environment calls ++ call.translatedLines environment := by
  unfold unreturned
  split
  · rename_i succeeds
    rw [List.rtakeWhile_concat_neg _ _ _ (by simpa using succeeds)]
    rfl
  · rename_i fails
    rw [List.rtakeWhile_concat_pos _ _ _ (by simpa using fails), List.flatMap_append,
      List.flatMap_singleton]

/-- What was translated since the last success is pending. -/
theorem pending_run (file : Text) (calls : List Call) :
    ((start file).run environment calls).2.pending =
      (unreturned environment calls).flatMap Finding.output := by
  induction calls using List.reverseRecOn with
  | nil => rfl
  | append_singleton calls call inductionHypothesis =>
      rw [run_concat, (answer_accounts ..).pending, inductionHypothesis, unreturned_concat]
      split
      · rfl
      · rw [List.flatMap_append]
        rfl

theorem pending_append (file : Text) (calls : List Call) (call : Call) :
    ((start file).run environment calls).2.pending ++ call.translated environment =
      (unreturned environment calls ++ call.translatedLines environment).flatMap
        Finding.output := by
  rw [pending_run, List.flatMap_append]
  rfl

/-- A line that was translated is either returned, once and in order, or it is pending. -/
theorem returned_run (file : Text) (calls : List Call) :
    ∃ bodies : List (List Finding), List.Forall₂
        (fun text body => ∃ names : Names,
          text = program environment.settings.symbolPrefix (body.flatMap Finding.output) names)
        (((start file).run environment calls).1.filterMap Answer.text?) bodies ∧
      bodies.flatten ++ unreturned environment calls =
        calls.flatMap (Call.translatedLines environment) := by
  induction calls using List.reverseRecOn with
  | nil => exact ⟨[], .nil, rfl⟩
  | append_singleton calls call inductionHypothesis =>
      obtain ⟨bodies, texts, all⟩ := inductionHypothesis
      have step := ((start file).run environment calls).2.answer_accounts environment call
      rw [run_concat, List.flatMap_append, List.flatMap_singleton, ← all, List.filterMap_append,
        unreturned_concat]
      rw [List.filterMap_cons, List.filterMap_nil]
      cases succeeds : call.succeeds environment with
      | true =>
          rw [step.returned, if_pos succeeds, if_pos rfl, pending_append]
          refine ⟨bodies ++ [unreturned environment calls ++ call.translatedLines environment],
            List.rel_append texts (.cons ⟨_, rfl⟩ .nil), ?_⟩
          simp
      | false =>
          have fails : ¬call.succeeds environment = true := by simp [succeeds]
          rw [step.returned, if_neg fails, if_neg Bool.false_ne_true]
          exact ⟨bodies, by simpa using texts, (List.append_assoc ..).symm⟩

/-- A session with other messages. -/
def withMessages (messages : List Message) : Session := { session with messages := messages }

/-- The messages do not count for an answer. -/
theorem answer_withMessages (messages : List Message) (call : Call) :
    ∃ later, (session.withMessages messages).answer environment call =
      ((session.answer environment call).1,
        (session.answer environment call).2.withMessages later) := by
  cases call with
  | convert source =>
      simp only [answer, convert, withMessages]
      cases (environment.readings .outside (Text.lines source)).getLast?.bind Reading.cause? with
      | none => exact ⟨_, rfl⟩
      | some cause => exact ⟨_, rfl⟩
  | refer name =>
      simp only [answer, refer, withMessages]
      cases environment.reference name with
      | error cause => exact ⟨messages, rfl⟩
      | ok reference => exact ⟨_, rfl⟩

theorem run_withMessages (messages : List Message) (calls : List Call) :
    ((session.withMessages messages).run environment calls).1 =
      (session.run environment calls).1 := by
  induction calls generalizing session messages with
  | nil => rfl
  | cons call calls inductionHypothesis =>
      obtain ⟨later, same⟩ := session.answer_withMessages environment messages call
      rw [run, run, same, inductionHypothesis]

theorem answer_refer (name : Text) :
    ∃ messages, (session.answer environment (.refer name)).2 = session.withMessages messages := by
  rw [answer, refer]
  cases environment.reference name with
  | error cause => exact ⟨session.messages, rfl⟩
  | ok reference => exact ⟨_, rfl⟩

/-- The labels of all lines follow those of earlier calls. -/
theorem toList_insertAll_of_accepted {source : Text}
    (accepted : environment.failingLine? source = none) :
    (session.defined.insertAll (environment.labels source)).toList =
      (session.defined.toList ++
        (environment.translatedLines source).filterMap Finding.label).eraseDups := by
  rw [Names.toList_insertAll, environment.labels_of_accepted accepted]

/-- The label of the line that fails is the last one. -/
theorem toList_insertAll_of_refused {source : Text} {finding : Finding}
    (refused : environment.failingLine? source = some finding) :
    (session.defined.insertAll (environment.labels source)).toList =
      (session.defined.toList ++
        (environment.translatedLines source).filterMap Finding.label ++
          finding.label.toList).eraseDups := by
  rw [Names.toList_insertAll, environment.labels_of_refused refused, List.append_assoc]

/-- Over any calls a session collects all labels and returns the text of all lines that were
translated, each line once; only what was translated since the last success is still pending. -/
theorem run_accounting (file : Text) (calls : List Call) :
    let symbolPrefix := environment.settings.symbolPrefix
    let session := ((start file).run environment calls).2
    let globalText := fun names : List Text =>
      names.flatMap fun name => ".global ".toList ++ symbolPrefix ++ name ++ ['\n']
    session.defined.toList = (calls.flatMap (Call.labels environment)).eraseDups ∧
    session.pending = (unreturned environment calls).flatMap Finding.output ∧
    (∃ bodies : List (List Finding),
      List.Forall₂ (fun text body => ∃ names : Names,
          text = body.flatMap (Finding.text symbolPrefix) ++ ['\n'] ++ globalText names.toList)
        (((start file).run environment calls).1.filterMap Answer.text?) bodies ∧
      bodies.flatten ++ unreturned environment calls =
        calls.flatMap (Call.translatedLines environment)) ∧
    (∀ call, session.defined.toList <+: (session.answer environment call).2.defined.toList ∧
      session.messages <+: (session.answer environment call).2.messages) ∧
    (∀ name later, (session.answer environment (.refer name)).2.defined = session.defined ∧
      ((session.answer environment (.refer name)).2.run environment later).1 =
        (session.run environment later).1) ∧
    ∀ source,
      (∀ finding ∈ environment.translatedLines source, ∃ output, finding.output = [output] ∧
        environment.Translates finding.1.raw output (finding.text symbolPrefix)) ∧
      let converted := session.convert environment source
      match environment.failingLine? source with
      | none =>
          let names := (session.defined.toList ++
            (environment.translatedLines source).filterMap Finding.label).eraseDups
          converted.1 = .ok ((unreturned environment calls).flatMap (Finding.text symbolPrefix) ++
              (environment.translatedLines source).flatMap (Finding.text symbolPrefix) ++
              ['\n'] ++ globalText names) ∧
            converted.2.defined.toList = names ∧ converted.2.pending = []
      | some finding =>
          ((environment.settings.opens finding.1.raw = true ∧ finding.label = none) ∨
              ∀ name, finding.label = some name ↔
                Listing.DeclaresLabel finding.1.raw name) ∧
            (∃ failure, converted.1 = .error failure) ∧
            converted.2.defined.toList = (session.defined.toList ++
              (environment.translatedLines source).filterMap Finding.label ++
                finding.label.toList).eraseDups ∧
            converted.2.pending = session.pending ++
              (environment.translatedLines source).flatMap Finding.output := by
  intro symbolPrefix session globalText
  have pending : session.pending = (unreturned environment calls).flatMap Finding.output :=
    pending_run environment file calls
  refine ⟨?_, pending, ?_, ?_, ?_, fun source => ⟨?_, ?_⟩⟩
  · rw [defined_run, Names.toList_insertAll]
    rfl
  · obtain ⟨bodies, texts, all⟩ := returned_run environment file calls
    refine ⟨bodies, texts.imp fun text body => ?_, all⟩
    rintro ⟨names, rfl⟩
    exact ⟨names, program_flatMap_output ..⟩
  · intro call
    have step := session.answer_accounts environment call
    exact ⟨step.defined ▸ Names.toList_prefix_insertAll .., step.messages⟩
  · intro name later
    obtain ⟨messages, after⟩ := session.answer_refer environment name
    rw [after]
    exact ⟨rfl, session.run_withMessages environment messages later⟩
  · intro finding member
    exact environment.translates_of_mem member
  · intro converted
    have defined : converted.2.defined = session.defined.insertAll (environment.labels source) :=
      (session.answer_accounts environment (.convert source)).defined
    cases failing : environment.failingLine? source with
    | none =>
        have names := session.toList_insertAll_of_accepted environment failing
        have accepted := session.convert_of_accepted environment failing
        have body : session.pending ++ environment.translated source =
            (unreturned environment calls ++ environment.translatedLines source).flatMap
              Finding.output := pending_append environment file calls (.convert source)
        rw [body, program_flatMap_output, names, List.flatMap_append] at accepted
        have returned := congrArg Prod.fst accepted
        have emptied : converted.2.pending = [] :=
          congrArg (fun result => result.2.pending) accepted
        exact ⟨returned, (congrArg Names.toList defined).trans names, emptied⟩
    | some finding =>
        have names := session.toList_insertAll_of_refused environment failing
        obtain ⟨failure, refused⟩ := session.convert_of_refused environment failing
        have kept : converted.2.pending = session.pending ++ environment.translated source :=
          (congrArg (fun result => result.2.pending) refused).trans
            (session.pending_reading environment source)
        exact ⟨environment.label_failingLine? failing, ⟨failure, congrArg Prod.fst refused⟩,
          (congrArg Names.toList defined).trans names, kept⟩

end Session

end DataSegment
