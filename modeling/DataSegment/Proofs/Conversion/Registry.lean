import Mathlib.Data.List.Induction
import DataSegment.Proofs.Conversion.Translation

namespace DataSegment

open Assembly Listing

namespace Names

theorem eraseDups_of_nodup {names : List Text} (distinct : names.Nodup) :
    names.eraseDups = names := by
  induction names with
  | nil => rfl
  | cons name rest inductionHypothesis =>
      obtain ⟨fresh, others⟩ := List.nodup_cons.1 distinct
      have kept : rest.filter (fun other => !other == name) = rest := by
        apply List.filter_eq_self.2
        intro other member
        simpa using fun same : other = name => fresh (same ▸ member)
      rw [List.eraseDups_cons, kept, inductionHypothesis others]

/-- New names follow the ones that are listed, in the order of their first mention. -/
theorem toList_insertAll (names : Names) (more : List Text) :
    (names.insertAll more).toList = (names.toList ++ more).eraseDups := by
  induction more generalizing names with
  | nil => rw [List.append_nil, eraseDups_of_nodup names.nodup_toList]; rfl
  | cons name more inductionHypothesis =>
      rw [insertAll, List.foldl_cons, ← insertAll, inductionHypothesis, toList_insert]
      split
      · rename_i listed
        have dropped : (name :: more).removeAll names.toList = more.removeAll names.toList := by
          simp [List.removeAll, listed]
        rw [List.eraseDups_append, List.eraseDups_append, dropped]
      · rw [List.append_assoc, List.singleton_append]

theorem insertAll_append (names : Names) (first rest : List Text) :
    names.insertAll (first ++ rest) = (names.insertAll first).insertAll rest :=
  List.foldl_append ..

theorem toList_prefix_insertAll (names : Names) (more : List Text) :
    names.toList <+: (names.insertAll more).toList := by
  rw [toList_insertAll, List.eraseDups_append, eraseDups_of_nodup names.nodup_toList]
  exact List.prefix_append ..

end Names

namespace Listing

/-- The label of a line that declares data under one. -/
def label? (line : Text) : Option Text := Environment.entryLabel (Entry.ofWords (keptWords line))

theorem ofDeclaration_label? {first second name : Text} {rest : List Text} :
    Environment.entryLabel (Entry.ofDeclaration first second rest) = some name ↔
      first = name ∧ Width.ofDirective? first = none ∧
        (Width.ofDirective? second).isSome = true := by
  unfold Entry.ofDeclaration
  cases Width.ofDirective? first with
  | some width => simp [Environment.entryLabel]
  | none => cases Width.ofDirective? second <;> simp [Environment.entryLabel]

/-- The line declares data under the name: a directive is its second word, and the first one has no
meaning of its own. -/
def DeclaresLabel (line name : Text) : Prop :=
  ∃ directive operands, keptWords line = name :: directive :: operands ∧
    (Width.ofDirective? directive).isSome = true ∧ Width.ofDirective? name = none ∧
    name ≠ "assume".toList ∧ name ≠ "align".toList ∧ (operands = [] → name ≠ "end".toList)

theorem label?_eq_some {line name : Text} : label? line = some name ↔ DeclaresLabel line name := by
  have ends : Width.ofDirective? ['e', 'n', 'd', 's'] = none := by decide
  rw [label?, DeclaresLabel]
  cases keptWords line with
  | nil => simp [Entry.ofWords, Environment.entryLabel]
  | cons first others =>
      cases others with
      | nil =>
          rw [Entry.ofWords]
          split <;> simp [Environment.entryLabel]
      | cons second rest =>
          rw [Entry.ofWords]
          split
          · rename_i closing
            obtain ⟨rfl, rfl | rfl⟩ := closing
            · simp [Environment.entryLabel, ends]
            · simp +contextual [Environment.entryLabel]
          · rename_i goes
            split
            · rename_i assumes
              simp +contextual [Environment.entryLabel, assumes]
            · rename_i speaks
              split
              · rename_i aligns
                simp +contextual [Environment.entryLabel, aligns]
              · rename_i declares
                rw [ofDeclaration_label?]
                constructor
                · rintro ⟨rfl, plain, directive⟩
                  exact ⟨second, rest, rfl, directive, plain, speaks, declares,
                    fun alone last => goes ⟨alone, .inr last⟩⟩
                · rintro ⟨directive, operands, same, known, plain, _⟩
                  obtain ⟨rfl, rfl, rfl⟩ : first = name ∧ second = directive ∧ rest = operands := by
                    simpa using same
                  exact ⟨rfl, plain, known⟩

end Listing

/-- The labels of the labelled declarations of a segment. -/
def Segment.labels (segment : Segment) : List Text :=
  segment.statements.filterMap fun line => label? line.raw

/-- The label that a line of output defines. -/
def Assembly.Output.label? : Output → Option Text
  | .opening .. => none
  | .data line => line.label

namespace Environment

variable (environment : Environment)

theorem filterMap_label_relevant (file : Text) (number : Nat) (source : Text) :
    (environment.relevant file number source).filterMap Finding.label =
      (segments environment.settings (locations file number (Text.lines source))).flatMap
        Segment.labels := by
  rw [relevant, List.filterMap_flatMap]
  exact List.flatMap_congr fun segment _ => environment.filterMap_label_segmentFindings segment

theorem filterMap_label?_readOutside (line : Text) :
    (environment.readOutside line).output.filterMap Output.label? = [] := by
  cases opens : environment.settings.opens line with
  | false =>
      rw [Reading.output, environment.readOutside_of_rests opens]
      rfl
  | true =>
      rcases environment.readOutside_of_opens opens with ⟨header, _, read⟩ | ⟨_, cause, failed⟩
      · rw [Reading.output, read]
        rfl
      · rw [Reading.output, failed]
        rfl

theorem label_of_declarationLine {declaration : Declaration} {line : Line}
    (converted : environment.declarationLine declaration = .ok line) :
    line.label = declaration.label := by
  unfold declarationLine at converted
  split at converted
  · contradiction
  · obtain ⟨_, _, rfl⟩ := Results.map_eq_ok_iff.1 converted
    rfl

/-- A line that is translated keeps its label. -/
theorem filterMap_label?_readInside {line : Text}
    (passes : (environment.readInside line).cause? = none) :
    (environment.readInside line).output.filterMap Output.label? =
      (environment.readInside line).label.toList := by
  unfold readInside Reading.cause? at passes
  unfold readInside Reading.output
  dsimp only at passes ⊢
  generalize Entry.ofWords ((words line).map Word.text) = entry at passes ⊢
  cases entry with
  | closing => rfl
  | ignored => rfl
  | align boundary =>
      cases number : readNumber boundary with
      | error cause => simp [readEntry, number, Except.map] at passes
      | ok value => simp [readEntry, number, Except.map, entryLabel, Output.label?]
  | declaration declaration =>
      cases converted : environment.declarationLine declaration with
      | error cause => simp [readEntry, converted, Except.map] at passes
      | ok data =>
          have same := environment.label_of_declarationLine converted
          cases named : declaration.label <;>
            simp [readEntry, converted, Except.map, entryLabel, Output.label?, same, named]
  | unknownLine word => simp [readEntry] at passes
  | unknownDeclaration first second => simp [readEntry] at passes

theorem filterMap_label?_output {finding : Finding} {file : Text} {number : Nat} {source : Text}
    (member : finding ∈ environment.relevant file number source)
    (passes : finding.passes = true) :
    finding.output.filterMap Output.label? = finding.label.toList := by
  obtain ⟨segment, _, member⟩ := List.mem_flatMap.1 member
  rcases List.mem_cons.1 member with rfl | member
  · have unnamed : (environment.openingFinding segment.opening).label = none :=
      environment.readOutside_label _
    rw [unnamed]
    exact environment.filterMap_label?_readOutside segment.opening.raw
  · obtain ⟨line, _, rfl⟩ := List.mem_map.1 member
    exact environment.filterMap_label?_readInside (Option.isNone_iff_eq_none.1 passes)

theorem filterMap_label?_translated (source : Text) :
    (environment.translated source).filterMap Output.label? =
      (environment.translatedLines source).filterMap Finding.label := by
  rw [translated, List.filterMap_flatMap, List.filterMap_eq_flatMap_toList]
  apply List.flatMap_congr
  intro finding member
  have passes := List.mem_takeWhile_imp member
  exact environment.filterMap_label?_output ((List.takeWhile_prefix _).subset member) passes

end Environment

namespace Assembly

/-- A line of the text starts with the name, its prefix and a colon. -/
def DefinesLabel (symbolPrefix text name : Text) : Prop :=
  ∃ before rest, text = before ++ (symbolPrefix ++ name ++ [':'] ++ rest) ∧
    (before = [] ∨ before.getLast? = some '\n')

theorem ends_flatMap_render (symbolPrefix : Text) (body : List Output) :
    body.flatMap (Output.render symbolPrefix) = [] ∨
      (body.flatMap (Output.render symbolPrefix)).getLast? = some '\n' := by
  induction body using List.reverseRecOn with
  | nil => exact .inl rfl
  | append_singleton body output _ =>
      right
      rw [List.flatMap_append, List.flatMap_singleton]
      cases output with
      | opening header alignment =>
          rw [Output.render, ← List.append_assoc, List.getLast?_concat]
      | data line => rw [Output.render, ← List.append_assoc, List.getLast?_concat]

theorem Line.exists_render {name : Text} {line : Line} (named : line.label = some name)
    (symbolPrefix : Text) :
    ∃ rest, line.render symbolPrefix = symbolPrefix ++ name ++ [':'] ++ rest := by
  rw [Line.render, Line.labelText, named]
  dsimp only
  rw [labelField]
  simp only [List.append_assoc, List.append_cancel_left_eq]
  exact ⟨_, rfl⟩

/-- A line of data with a label is a line of the program that starts with it. -/
theorem definesLabel_program {symbolPrefix name : Text} {body : List Output} {line : Line}
    (member : .data line ∈ body) (named : line.label = some name) (names : Names) :
    DefinesLabel symbolPrefix (program symbolPrefix body names) name := by
  obtain ⟨before, after, rfl⟩ := List.append_of_mem member
  obtain ⟨rest, printed⟩ := Line.exists_render named symbolPrefix
  refine ⟨before.flatMap (Output.render symbolPrefix), rest ++ ['\n'] ++
    after.flatMap (Output.render symbolPrefix) ++ ['\n'] ++ globalLines symbolPrefix names,
    ?_, ends_flatMap_render symbolPrefix before⟩
  rw [program, List.flatMap_append, List.flatMap_cons, Output.render, printed]
  simp only [List.append_assoc]

end Assembly

/-- A listing that converts declares every label that its segments define global, once and in the
order of definition. -/
theorem Session.convert_registry {environment : Environment} {file source text : Text}
    (accepted : ((Session.start file).convert environment source).1 = .ok text) :
    let symbolPrefix := environment.settings.symbolPrefix
    let labels := (segments environment.settings (locations file 0 (Text.lines source))).flatMap
      Segment.labels
    let body := environment.translated source
    ((Session.start file).convert environment source).2.defined.toList = labels.eraseDups ∧
      labels.eraseDups.Nodup ∧
      text = body.flatMap (Output.render symbolPrefix) ++ ['\n'] ++
        labels.eraseDups.flatMap (fun name => ".global ".toList ++ symbolPrefix ++ name ++ ['\n']) ∧
      body.filterMap Output.label? = labels ∧
      ∀ name ∈ labels.eraseDups, DefinesLabel symbolPrefix text name := by
  intro symbolPrefix labels body
  have failures : environment.relevant (Session.start file).file (Session.start file).line source =
      environment.relevant file 0 source := rfl
  rw [Session.convert_eq, failures] at accepted ⊢
  cases passes : (environment.relevant file 0 source).findSome? Finding.failure? with
  | some failure => simp [passes] at accepted
  | none =>
      have defined : environment.labels source = labels :=
        (environment.translated_of_accepted passes).2.trans
          (environment.filterMap_label_relevant file 0 source)
      have whole : environment.failingLine? source = none :=
        (environment.failingLine?_eq_none file 0 source).2 passes
      have kept : body.filterMap Output.label? = labels := by
        rw [environment.filterMap_label?_translated, ← defined,
          environment.labels_of_accepted whole]
      have names : ((Session.start file).reading environment source).defined.toList =
          labels.eraseDups := by
        rw [Session.defined_reading, Names.toList_insertAll, defined]
        rfl
      have printed : program symbolPrefix body
          ((Session.start file).reading environment source).defined = text := by
        have pending := Session.pending_reading environment (Session.start file) source
        rw [passes] at accepted
        rw [← Except.ok.inj accepted, pending]
        rfl
      refine ⟨names, names ▸ Names.nodup_toList _, ?_, kept, fun name listed => ?_⟩
      · rw [← names, ← printed]
        rfl
      · rw [List.mem_eraseDups, ← kept] at listed
        obtain ⟨output, member, named⟩ := List.mem_filterMap.1 listed
        cases output with
        | opening header alignment => simp [Output.label?] at named
        | data line => exact printed ▸ definesLabel_program member named _

/-- Two segments define a label twice, and a third one is skipped. -/
theorem Session.convert_registry_twice :
    let environment : Environment := ⟨.standard, .empty, ∅⟩
    let source := ("_text segment\nc db 1\nend\n_data segment\nb db 1\na db 2\nend\n" ++
      "_data segment\nb db 3\n").toList
    let text := ("\n.data\n.align 4\n_b:\t\t  .byte 1\n_a:\t\t  .byte 2\n" ++
      "\n.data\n.align 4\n_b:\t\t  .byte 3\n\n.global _b\n.global _a\n").toList
    ((Session.start []).convert environment source).1 = .ok text ∧
      ((Session.start []).convert environment source).2.defined.toList = [['b'], ['a']] ∧
      (environment.translated source).filterMap Output.label? = [['b'], ['a'], ['b']] ∧
      DefinesLabel ['_'] text ['a'] := by
  intro environment source text
  have accepted : ((Session.start []).convert environment source).1 = .ok text := by
    decide +kernel
  have labels : (segments environment.settings (locations [] 0 (Text.lines source))).flatMap
      Segment.labels = [['b'], ['a'], ['b']] := by decide +kernel
  have once : [['b'], ['a'], ['b']].eraseDups = [['b'], ['a']] := by decide +kernel
  obtain ⟨names, _, _, kept, found⟩ := Session.convert_registry accepted
  rw [labels] at names kept found
  rw [once] at names found
  exact ⟨accepted, names, kept, found _ (by simp)⟩

end DataSegment
