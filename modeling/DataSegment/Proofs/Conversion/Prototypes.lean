import DataSegment.Conversion.Session
import DataSegment.Proofs.Conversion.References

namespace DataSegment

open Assembly Listing

/-- Two environments agree when they have the same settings and write every reference alike. -/
structure Environment.Agree (environment other : Environment) : Prop where
  settings : other.settings = environment.settings
  reference : ∀ name, other.reference name = environment.reference name

namespace Environment.Agree

variable {environment other : Environment} (agree : environment.Agree other)
include agree

theorem referenceRemarks (name : Text) :
    other.referenceRemarks name = environment.referenceRemarks name := by
  unfold Environment.referenceRemarks
  rw [agree.reference]

theorem item (width : Width) : other.item width = environment.item width := by
  funext operand
  cases operand with
  | label name => rw [Environment.item, Environment.item, agree.reference]
  | unset => rfl
  | number word => rfl

theorem statement (width : Width) (form : Form) :
    other.statement width form = environment.statement width form := by
  cases form with
  | list operands => rw [Environment.statement, Environment.statement, agree.item]
  | string | repeated | packed | float => rfl

theorem formRemarks (width : Width) (form : Form) :
    other.formRemarks width form = environment.formRemarks width form := by
  have remarks : other.operandRemarks = environment.operandRemarks := by
    funext operand
    cases operand with
    | label name => exact agree.referenceRemarks name
    | unset => rfl
    | number word => rfl
  cases form with
  | list operands => rw [Environment.formRemarks, Environment.formRemarks, agree.item, remarks]
  | string | repeated | packed | float => rfl

theorem declaration (declaration : Declaration) :
    other.declarationLine declaration = environment.declarationLine declaration ∧
      other.declarationRemarks declaration = environment.declarationRemarks declaration := by
  unfold declarationLine declarationRemarks
  cases Form.ofOperands declaration.width declaration.operands with
  | error cause => exact ⟨rfl, rfl⟩
  | ok form => exact ⟨by dsimp only; rw [agree.statement], agree.formRemarks _ form⟩

theorem readInside (line : Text) : other.readInside line = environment.readInside line := by
  unfold Environment.readInside
  dsimp only
  cases Entry.ofWords ((words line).map Word.text) with
  | declaration declared =>
      obtain ⟨converted, remarks⟩ := agree.declaration declared
      rw [entryRemarks, entryRemarks, readEntry, readEntry, converted, remarks]
  | closing | ignored | align | unknownLine | unknownDeclaration => rfl

theorem readOutside (line : Text) : other.readOutside line = environment.readOutside line := by
  unfold Environment.readOutside openSegment
  rw [agree.settings]

theorem readings (position : Position) (lines : List Text) :
    other.readings position lines = environment.readings position lines := by
  induction lines generalizing position with
  | nil => rfl
  | cons line rest inductionHypothesis =>
      have read : other.readLine position line = environment.readLine position line := by
        cases position with
        | outside => exact agree.readOutside line
        | inside => exact agree.readInside line
      rw [Environment.readings, Environment.readings, read]
      cases (environment.readLine position line).result with
      | error cause => rfl
      | ok found => exact congrArg _ (inductionHypothesis found.1)

end Environment.Agree

/-- A listing converts alike, message by message, where every reference is written alike. -/
theorem Session.convert_of_agree {environment other : Environment} (agree : environment.Agree other)
    (session : Session) (source : Text) :
    session.convert other source = session.convert environment source := by
  unfold convert
  rw [agree.readings, agree.settings]

/-- The environment with another header. -/
def Environment.withPrototypes (environment : Environment) (prototypes : Header.Database) :
    Environment := { environment with prototypes := prototypes }

/-- The prototype of a suppressed name is not looked at. -/
theorem Environment.agree_withPrototypes {environment : Environment} {prototypes : Header.Database}
    (same : ∀ name, ¬environment.Suppressed name →
      prototypes.lookup? name = environment.prototypes.lookup? name) :
    environment.Agree (environment.withPrototypes prototypes) where
  settings := rfl
  reference name := by
    unfold reference
    have suppresses : (environment.withPrototypes prototypes).suppresses name =
        environment.suppresses name := rfl
    rw [suppresses]
    split
    · rfl
    · rename_i exported
      have found := same name fun suppressed => exported (suppresses_iff.2 suppressed)
      rw [← found]
      rfl

/-- A listing converts alike, message by message, under two headers that differ only in the
prototypes of suppressed names. -/
theorem Session.convert_withPrototypes {environment : Environment} {prototypes : Header.Database}
    (same : ∀ name, ¬environment.Suppressed name →
      prototypes.lookup? name = environment.prototypes.lookup? name)
    (session : Session) (source : Text) :
    session.convert (environment.withPrototypes prototypes) source =
      session.convert environment source :=
  convert_of_agree (Environment.agree_withPrototypes same) session source

/-- The prototype of a listed name takes its parameter in a register that cannot be used. -/
theorem Session.convert_withPrototypes_listed :
    let environment : Environment := ⟨.standard, .empty, .ofText ['f']⟩
    let prototypes := Header.Database.empty.insert
      ⟨['f'], "int".toList, .routine, .usercall, [⟨"int a".toList, some .eax⟩], false⟩
    let source := "_data segment\nt dd f, g\n".toList
    (∀ name, ¬environment.Suppressed name →
        prototypes.lookup? name = environment.prototypes.lookup? name) ∧
      prototypes.lookup? ['f'] ≠ environment.prototypes.lookup? ['f'] ∧
      (start []).convert (environment.withPrototypes prototypes) source =
        (start []).convert environment source ∧
      ((start []).convert environment source).1 =
        .ok "\n.data\n.align 4\n_t:\t\t  .long 0, _g\t\t# f\n\n.global _t\n".toList := by
  intro environment prototypes source
  have same : ∀ name, ¬environment.Suppressed name →
      prototypes.lookup? name = environment.prototypes.lookup? name := by
    intro name exported
    have listed : ['f'] ∈ environment.suppressed := Suppression.mem_ofText.2 (by decide +kernel)
    rw [Header.Database.lookup?_insert, if_neg]
    rintro rfl
    exact exported (.inr (.inr listed))
  refine ⟨same, ?_, convert_withPrototypes same _ _, by decide +kernel⟩
  rw [Header.Database.lookup?_insert, if_pos rfl]
  decide +kernel

end DataSegment
