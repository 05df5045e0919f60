import DataSegment.Proofs.Conversion.Declarations
import DataSegment.Proofs.Conversion.Locality

namespace DataSegment

open Assembly Listing
open Text (join)

/-- A line declares a list of operands. -/
structure Listing.Declares (line : Text) (declaration : Declaration) (operands : List Operand) :
    Prop where
  entry : Entry.ofWords (keptWords line) = .declaration declaration
  form : Form.ofOperands declaration.width declaration.operands = .ok (.list operands)

/-- The comment behind a statement lists the names that the line keeps. -/
theorem Assembly.Line.render_comments (symbolPrefix : Text) (line : Line) :
    line.render symbolPrefix =
      line.labelText symbolPrefix ++ line.statement.render symbolPrefix ++
        if line.comments = [] then [] else "\t\t# ".toList ++ join [',', ' '] line.comments := by
  rw [Line.render, Line.commentText]
  cases line.comments <;> rfl

namespace Environment

variable (environment : Environment)

/-- A name is written as zero and left to the comment when it is suppressed. Any other name is
written as its symbol and can be referenced. -/
inductive WritesName (name : Text) : Text × List Text → Prop where
  | suppressed (suppressed : environment.Suppressed name) : WritesName name (['0'], [name])
  | external (exported : ¬environment.Suppressed name) (admitted : environment.Admits name) :
      WritesName name (environment.settings.symbolPrefix ++ name, [])

/-- The line has a field for each of its operands, and writes the names among them. -/
def KeepsNames (declaration : Declaration) (operands : List Operand) (line : Line) : Prop :=
  ∃ written : List (Text × List Text),
    line.label = declaration.label ∧
    line.statement.render environment.settings.symbolPrefix =
      unitMnemonic declaration.width ++ [' '] ++ join [',', ' '] (written.map Prod.fst) ∧
    line.comments = written.flatMap Prod.snd ∧
    List.Forall₂ (fun operand field => ∀ name, operand = .label name →
      environment.WritesName name field) operands written

variable {environment}

/-- A declaration of a list that converts keeps its names. -/
theorem keepsNames_of_declarationLine {declaration : Declaration} {operands : List Operand}
    {line : Line}
    (form : Form.ofOperands declaration.width declaration.operands = .ok (.list operands))
    (converted : environment.declarationLine declaration = .ok line) :
    environment.KeepsNames declaration operands line := by
  rw [declarationLine, form] at converted
  obtain ⟨⟨statement, comments⟩, made, rfl⟩ := Results.map_eq_ok_iff.1 converted
  obtain ⟨written, each, same⟩ := statement_list_eq_ok_iff.1 made
  obtain ⟨rfl, rfl⟩ := Prod.mk.inj same
  refine ⟨written.map fun item =>
    (item.1.render environment.settings.symbolPrefix, item.2), rfl, ?_, ?_, ?_⟩
  · rw [Statement.render_list, List.map_map, List.map_map]
    rfl
  · rw [List.flatMap_map]
  · rw [List.forall₂_map_right_iff]
    refine each.imp fun operand item writes name label => ?_
    subst label
    cases writes with
    | suppressed suppressed => exact .suppressed suppressed
    | external exported admitted => exact .external exported admitted

/-- A declaration that does not fail is translated to its line. -/
theorem exists_line_of_passes {line : Location} {declaration : Declaration}
    (entry : Entry.ofWords (keptWords line.raw) = .declaration declaration)
    (passes : (environment.statementFinding line).failure? = none) :
    ∃ data, environment.declarationLine declaration = .ok data ∧
      environment.translation line = data.render environment.settings.symbolPrefix ++ ['\n'] := by
  have read : (environment.readInside line.raw).result =
      (environment.declarationLine declaration).map fun data => (.inside, [.data data]) := by
    rw [keptWords] at entry
    rw [readInside, entry, readEntry]
  cases converted : environment.declarationLine declaration with
  | error cause =>
      rw [converted] at read
      simp [statementFinding, Finding.failure?, Reading.cause?, read, Except.map] at passes
  | ok data =>
      rw [converted] at read
      refine ⟨data, rfl, ?_⟩
      simp [translation, Reading.output, read, Except.map, Output.render]

/-- When a listing converts, none of its lines fails. -/
theorem passes_of_convert {file source text : Text}
    (converted : ((Session.start file).convert environment source).1 = .ok text) :
    text = environment.listingText
        (segments environment.settings (locations file 0 (Text.lines source))) ∧
      ∀ segment ∈ segments environment.settings (locations file 0 (Text.lines source)),
        ∀ line ∈ segment.statements, (environment.statementFinding line).failure? = none := by
  rw [convert_start] at converted
  split at converted
  · contradiction
  · rename_i passes
    refine ⟨(Except.ok.inj converted).symm, fun segment member line listed => ?_⟩
    apply List.findSome?_eq_none_iff.1 passes
    refine List.mem_flatMap.2 ⟨segment, member, List.mem_cons_of_mem _ ?_⟩
    exact List.mem_map.2 ⟨line, listed, rfl⟩

end Environment

/-- In a listing that converts, every name is suppressed or can be referenced, and is written
accordingly, behind a comment mark if it is suppressed; `offset` stands only in lists. A name that
is neither makes the listing fail. -/
theorem Session.convert_references (environment : Environment) (file source : Text) :
    let parts := segments environment.settings (locations file 0 (Text.lines source))
    (∀ text, ((Session.start file).convert environment source).1 = .ok text →
      text = environment.listingText parts ∧
      ∀ segment ∈ parts, ∀ line ∈ segment.statements,
        (∀ declaration, Entry.ofWords (keptWords line.raw) = .declaration declaration →
          "offset".toList ∈ declaration.operands →
          ∃ operands, Declares line.raw declaration operands) ∧
        ∀ declaration operands, Declares line.raw declaration operands →
          ∃ data, environment.translation line =
              data.render environment.settings.symbolPrefix ++ ['\n'] ∧
            data.render environment.settings.symbolPrefix =
              data.labelText environment.settings.symbolPrefix ++
                data.statement.render environment.settings.symbolPrefix ++
                (if data.comments = [] then []
                  else "\t\t# ".toList ++ join [',', ' '] data.comments) ∧
            environment.KeepsNames declaration operands data) ∧
    ∀ segment ∈ parts, ∀ line ∈ segment.statements, ∀ declaration operands,
      Declares line.raw declaration operands → ∀ name, .label name ∈ operands →
        ¬environment.Suppressed name → ¬environment.Admits name →
        ∃ failure, ((Session.start file).convert environment source).1 = .error failure := by
  intro parts
  constructor
  · intro text converted
    obtain ⟨rfl, passes⟩ := Environment.passes_of_convert converted
    refine ⟨rfl, fun segment member line listed => ⟨?_, ?_⟩⟩
    · intro declaration entry named
      obtain ⟨data, made, _⟩ :=
        Environment.exists_line_of_passes entry (passes segment member line listed)
      obtain ⟨operands, form⟩ := Declaration.exists_list_of_offset made named
      exact ⟨operands, entry, form⟩
    · intro declaration operands declares
      obtain ⟨data, made, translated⟩ :=
        Environment.exists_line_of_passes declares.entry (passes segment member line listed)
      exact ⟨data, translated, data.render_comments _,
        Environment.keepsNames_of_declarationLine declares.form made⟩
  · intro segment member line listed declaration operands declares name label exported refused
    cases converted : ((Session.start file).convert environment source).1 with
    | error failure => exact ⟨failure, rfl⟩
    | ok text =>
        obtain ⟨_, passes⟩ := Environment.passes_of_convert converted
        obtain ⟨data, made, _⟩ :=
          Environment.exists_line_of_passes declares.entry (passes segment member line listed)
        obtain ⟨written, _, _, _, each⟩ :=
          Environment.keepsNames_of_declarationLine declares.form made
        obtain ⟨field, _, writes⟩ := Results.exists_of_mem_left each label
        cases writes name rfl with
        | suppressed suppressed => exact absurd suppressed exported
        | external _ admitted => exact absurd admitted refused

end DataSegment
