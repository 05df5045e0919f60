import DataSegment.Proofs.Conversion.Composition
import DataSegment.Proofs.Conversion.Letters
import DataSegment.Proofs.Conversion.Locations
import DataSegment.Proofs.Conversion.Registry
import DataSegment.Proofs.Listing.Commas

namespace DataSegment

open Assembly Listing

namespace Listing

/-- A stray comma that is passed over: in front of a directive, where it is taken for a label
without letters; behind the last word, where it changes nothing; or behind the boundary of an
alignment, where nothing is read. -/
inductive PassedOver (line before after : Text) : Prop where
  | label {behind directive : Text} {operands : List Text}
      (starts : dropBlanks line = ',' :: behind)
      (kept : keptWords line = [] :: directive :: operands) (filled : operands ≠ [])
      (whole : [] ∉ operands) (declares : DeclaresLabel line [])
  | last (none : hasNoWord after = true) (same : words line = words before)
  | align {boundary : Text} {others : List Text}
      (kept : keptWords line = "align".toList :: boundary :: others)
      (number : (number? boundary).isSome = true) (empty : [] ∈ others)

/-- An alignment takes its boundary from the second word. -/
theorem Entry.words_of_align {words : List Text} {boundary : Text}
    (entry : Entry.ofWords words = .align boundary) :
    ∃ others, words = "align".toList :: boundary :: others := by
  unfold Entry.ofWords at entry
  split at entry
  · contradiction
  · split at entry <;> contradiction
  · rename_i first second rest
    split at entry
    · contradiction
    · split at entry
      · contradiction
      · split at entry
        · rename_i aligns
          exact ⟨rest, by rw [aligns, Entry.align.inj entry]⟩
        · unfold Entry.ofDeclaration at entry
          split at entry
          · contradiction
          · split at entry <;> contradiction

/-- Only a line that starts with a comma declares data under a label without letters. -/
theorem DeclaresLabel.exists_comma {line : Text} (declares : DeclaresLabel line []) :
    ∃ rest, dropBlanks line = ',' :: rest := by
  obtain ⟨directive, operands, kept, _⟩ := declares
  obtain ⟨⟨source⟩, others, found, empty, _⟩ := List.map_eq_cons_iff.1 kept
  obtain rfl : source = [] := Word.text_eq_nil.1 empty
  exact exists_comma_of_words found

end Listing

namespace Environment

variable {environment : Environment}

/-- A line with an empty word passes only as an alignment or with an empty label. -/
theorem passedOver_of_passes {line : Text} (goes : closes line = false)
    (speaks : silent line = false) (passes : (environment.readInside line).cause? = none)
    (empty : [] ∈ keptWords line) (before after : Text) : PassedOver line before after := by
  obtain ⟨open', heard⟩ := ofWords_of_speaks goes speaks
  have result : (environment.readInside line).result =
      environment.readEntry (Entry.ofWords (keptWords line)) := rfl
  rw [Reading.cause?, result] at passes
  cases entry : Entry.ofWords (keptWords line) with
  | closing => exact absurd entry open'
  | ignored => exact absurd entry heard
  | unknownLine word => simp [entry, readEntry] at passes
  | unknownDeclaration first second => simp [entry, readEntry] at passes
  | align boundary =>
      obtain ⟨others, kept⟩ := Entry.words_of_align entry
      cases read : readNumber boundary with
      | error cause => simp [entry, readEntry, read, Except.map] at passes
      | ok value =>
          have number := readNumber_eq_ok_iff.1 read
          have later : [] ∈ others := by
            have filled := ne_nil_of_number? number
            rw [kept] at empty
            simpa [Ne.symm filled] using empty
          exact .align kept (by rw [number, Option.isSome_some]) later
  | declaration declaration =>
      obtain ⟨directive, known, kept⟩ := Entry.words_of_declaration entry
      cases converted : environment.declarationLine declaration with
      | error cause => simp [entry, readEntry, converted, Except.map] at passes
      | ok data =>
          obtain ⟨form, _, whole, reads, _⟩ := declarationLine_eq_ok_iff_statement.1 converted
          have filled : declaration.operands ≠ [] := by
            intro none
            rw [none] at reads
            cases reads
          have named : directive ≠ [] := by
            rintro rfl
            contradiction
          have label : declaration.label = some [] := by
            rw [kept] at empty
            simpa [whole, Ne.symm named] using empty
          have declares : DeclaresLabel line [] := by
            rw [← label?_eq_some, label?, entry]
            exact label
          obtain ⟨behind, starts⟩ := declares.exists_comma
          rw [label] at kept
          exact .label starts kept filled whole declares

/-- A statement with a stray comma fails unless the comma is passed over. -/
theorem passedOver_of_stray {line before after : Text} (goes : closes line = false)
    (speaks : silent line = false) (passes : (environment.readInside line).cause? = none)
    (cut : line = before ++ ',' :: after) (code : IsCode before) (stray : Stray before after) :
    PassedOver line before after := by
  rcases stray.empty_or_last code with empty | ⟨none, same⟩
  · rw [← cut] at empty
    exact passedOver_of_passes goes speaks passes (nil_mem_keptWords.2 empty) before after
  · rw [← cut] at same
    exact .last none same

end Environment

namespace Session

/-- A name is defined by a line that declares data under it. -/
theorem mem_defined_convert {environment : Environment} {session : Session} {source name : Text}
    (defined : name ∈ (session.convert environment source).2.defined.toList) :
    name ∈ session.defined.toList ∨
      ∃ segment ∈ segments environment.settings
          (locations session.file session.line (Text.lines source)),
        ∃ line ∈ segment.statements, DeclaresLabel line.raw name := by
  rw [defined_convert, Names.mem_insertAll,
    environment.filterMap_label_readings session.file session.line] at defined
  refine defined.imp id fun listed => ?_
  have known : name ∈ (environment.relevant session.file session.line source).filterMap
      Finding.label := by
    rcases List.mem_append.1 listed with passed | failed
    · exact (List.takeWhile_sublist _).filterMap _ |>.subset passed
    · obtain ⟨finding, found, label⟩ := Option.bind_eq_some_iff.1 (Option.mem_toList.1 failed)
      exact List.mem_filterMap.2 ⟨finding, List.mem_of_find?_eq_some found, label⟩
  rw [environment.filterMap_label_relevant] at known
  obtain ⟨segment, member, labelled⟩ := List.mem_flatMap.1 known
  obtain ⟨line, stated, label⟩ := List.mem_filterMap.1 labelled
  exact ⟨segment, member, line, stated, label?_eq_some.1 label⟩

/-- A listing with a stray comma in a statement does not convert, unless the comma is passed over.
Only a statement that starts with a comma defines a name without letters, and it does when the
listing converts. -/
theorem convert_strayComma (environment : Environment) (session : Session) (source : Text) :
    let parts := segments environment.settings
      (locations session.file session.line (Text.lines source))
    let converted := session.convert environment source
    (∀ segment ∈ parts, ∀ line ∈ segment.statements, ∀ before after,
      line.raw = before ++ ',' :: after → IsCode before → Stray before after →
        (∃ failure, converted.1 = .error failure) ∨ PassedOver line.raw before after) ∧
    ([] ∈ converted.2.defined.toList → [] ∈ session.defined.toList ∨
      ∃ segment ∈ parts, ∃ line ∈ segment.statements, DeclaresLabel line.raw [] ∧
        ∃ rest, dropBlanks line.raw = ',' :: rest) ∧
    ∀ text, converted.1 = .ok text → ∀ segment ∈ parts, ∀ line ∈ segment.statements,
      DeclaresLabel line.raw [] → [] ∈ converted.2.defined.toList := by
  intro parts converted
  refine ⟨?_, ?_, ?_⟩
  · intro segment member line stated before after cut code stray
    cases result : converted.1 with
    | error failure => exact .inl ⟨failure, rfl⟩
    | ok text =>
        obtain ⟨_, _, each⟩ := mem_segments member
        obtain ⟨_, goes, speaks⟩ := each line stated
        have passes := passes_statement (passes_of_convert result) member stated
        have read : (environment.readInside line.raw).cause? = none :=
          Option.map_eq_none_iff.1 passes
        exact .inr (Environment.passedOver_of_stray goes speaks read cut code stray)
  · intro defined
    refine (mem_defined_convert defined).imp id ?_
    rintro ⟨segment, member, line, stated, declares⟩
    exact ⟨segment, member, line, stated, declares, declares.exists_comma⟩
  · intro text accepted segment member line stated declares
    obtain ⟨defined, _⟩ := convert_of_passes (passes_of_convert accepted)
    rw [defined, Names.mem_insertAll]
    exact .inr (List.mem_flatMap.2 ⟨segment, member,
      List.mem_filterMap.2 ⟨line, stated, label?_eq_some.2 declares⟩⟩)

/-- A comma in front of a directive and another one behind its operand: the listing converts and
declares a name without letters global. -/
theorem convert_strayComma_label :
    let environment : Environment := ⟨.standard, .empty, ∅⟩
    let source := "_data segment\n, db 1,\n_data ends\n".toList
    let converted := (start []).convert environment source
    (∃ segment ∈ segments environment.settings (locations [] 0 (Text.lines source)),
      ∃ line ∈ segment.statements, line.raw = ',' :: " db 1,".toList ∧ Stray [] " db 1,".toList ∧
        line.raw = ", db 1".toList ++ [','] ∧ IsCode ", db 1".toList ∧ Stray ", db 1".toList []) ∧
      converted.1 = .ok "\n.data\n.align 4\n_:\t\t  .byte 1\n\n.global _\n".toList ∧
      converted.2.defined.toList = [[]] := by
  intro environment source converted
  let opening : Location := ⟨[], 1, "_data segment".toList⟩
  let line : Location := ⟨[], 2, ", db 1,".toList⟩
  have parts : segments environment.settings (locations [] 0 (Text.lines source)) =
      [⟨opening, [line]⟩] := by decide +kernel
  have statements : (Segment.mk opening [line]).statements = [line] := by decide +kernel
  have code : IsCode ", db 1".toList := .of_plain (by decide) (by decide)
  have bare : ∀ letter ∈ ([] : Text), endsWord letter = true := by simp
  refine ⟨⟨⟨opening, [line]⟩, ?_, line, ?_, rfl, .leading bare, rfl, code,
    .trailing rfl bare (.inl rfl)⟩, ?_, ?_⟩
  · rw [parts]
    exact List.mem_singleton_self _
  · rw [statements]
    exact List.mem_singleton_self _
  · decide +kernel
  · decide +kernel

end Session

end DataSegment
