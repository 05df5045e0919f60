import DataSegment.Conversion.Session
import DataSegment.Proofs.Conversion.References
import DataSegment.Proofs.Header.Arguments
import DataSegment.Proofs.Header.Statement
import Mathlib.Data.List.ReduceOption

namespace DataSegment

open Text

namespace Header

/-- A statement that is written in one of the two ways is read as it is written. -/
theorem IsWritten.prototype?_eq {text : Text} {prototype : Prototype} (plain : IsPlain text)
    (more : definesType (withoutSpecifiers text) = false)
    (written : IsWritten (withoutSpecifiers text) prototype) :
    prototype? (withoutSpecifiers text) = .ok (some prototype.recorded) := by
  have body : (withoutSpecifiers text).contains '\x7b' = false := by
    rw [List.contains_eq_mem, decide_eq_false_iff_not]
    intro member
    rcases mem_withoutSpecifiers member with space | member
    · contradiction
    · exact (plain _ member).1 (by decide)
  exact prototype?_eq_some_iff.2 ⟨by rw [isIgnored, body, more, Bool.false_or], written.declares⟩

variable {prototype : Prototype}

/-- Every parameter is passed in a register or on the stack. -/
theorem length_parameters :
    prototype.parameters.length =
      prototype.recorded.registers.length + prototype.recorded.stackCount := by
  rw [registers_recorded, stackCount_recorded, List.countP_eq_length_filter,
    ← List.length_eq_reduceOption_length_add_filter_none, passing, List.length_mapIdx]

theorem callable_recorded_iff :
    prototype.recorded.callable = true ↔
      prototype.recorded.registers = [] ∨
      (prototype.recorded.registers = [.ecx] ∧ prototype.parameters.length = 1) ∨
      prototype.recorded.registers = [.ecx, .edx] := by
  rw [Environment.callable_iff]
  refine or_congr_right (or_congr_left (and_congr_right fun alone => ?_))
  rw [length_parameters, alone]
  simp

theorem IsWritten.kind_ne {text : Text} (written : IsWritten text prototype) :
    prototype.kind ≠ .data := by
  cases written <;> simp

/-- Without register marks the leading parameters take the registers of the convention. -/
theorem registers_of_unmarked {list : List Parameter}
    (unmarked : ∀ parameter ∈ list, parameter.register = none) (defaults : List Register) :
    (list.mapIdx fun index parameter => parameter.register.or defaults[index]?).reduceOption =
      defaults.take list.length := by
  -- Each parameter takes the next default register while there is one.
  induction list generalizing defaults with
  | nil => simp
  | cons parameter list inductionHypothesis =>
      obtain ⟨first, others⟩ := List.forall_mem_cons.1 unmarked
      have rest := inductionHypothesis others
      rw [List.mapIdx_cons, first, Option.none_or]
      cases defaults with
      | nil => simpa using rest []
      | cons register defaults => simpa using rest defaults

/-- Without register marks the convention and the number of parameters decide. -/
theorem callable_of_unmarked
    (unmarked : ∀ parameter ∈ prototype.parameters, parameter.register = none) :
    prototype.recorded.callable = true ↔
      prototype.convention ≠ .thiscall ∨ prototype.parameters.length ≤ 1 := by
  have registers : prototype.recorded.registers =
      prototype.convention.defaultRegisters.take prototype.parameters.length := by
    rw [registers_recorded, passing, registers_of_unmarked unmarked]
  rw [callable_recorded_iff, registers]
  generalize prototype.parameters.length = length
  cases prototype.convention with
  | cdecl | stdcall | usercall | userpurge => simp [Convention.defaultRegisters]
  | fastcall | thiscall =>
      obtain _ | _ | length := length
      · simp [Convention.defaultRegisters]
      · simp [Convention.defaultRegisters]
      · simp [Convention.defaultRegisters]

end Header

open Header

/-- The description of a call: the type, the name, the registers in order and the number of
parameters on the stack where there are any. -/
def callText (prototype : Prototype) (registers : List Register) (stack : Nat) : Text :=
  prototype.type ++ ' ' :: prototype.name ++ '(' ::
    join [',', ' '] (registers.map Register.name ++
      if 0 < stack then ['\x7b' :: decimal stack ++ " stack\x7d".toList] else []) ++ [')']

theorem signature_recorded (prototype : Prototype) :
    prototype.recorded.signature =
      callText prototype prototype.recorded.registers prototype.recorded.stackCount := by
  unfold Prototype.signature callText
  generalize prototype.recorded.stackCount = stack
  cases stack with
  | zero => simp [Prototype.recorded]
  | succ stack => simp [Prototype.recorded]

variable {environment : Environment}

theorem Environment.reference_of_found {name : Text} {prototype : Prototype}
    (exported : ¬environment.Suppressed name)
    (found : environment.prototypes.lookup? name = some prototype) (kind : prototype.kind ≠ .data) :
    environment.reference name =
      if prototype.callable then .ok (.external true)
      else .error (.registerCall prototype.signature) := by
  have referable : prototype.referable = prototype.callable := by
    rw [Prototype.referable, beq_eq_false_iff_ne.2 kind, Bool.false_or]
  rw [← suppresses_iff] at exported
  rw [Environment.reference, if_neg exported, found]
  dsimp only
  rw [referable]

/-- A routine is looked up without a remark. -/
theorem Session.refer_of_found (session : Session) {name : Text} {prototype : Prototype}
    (exported : ¬environment.Suppressed name)
    (found : environment.prototypes.lookup? name = some prototype) (kind : prototype.kind ≠ .data) :
    session.refer environment name =
      if prototype.callable then (.ok (.external true), session)
      else (.error ⟨.registerCall prototype.signature, session.location⟩, session) := by
  have reference := Environment.reference_of_found exported found kind
  rw [Session.refer, Environment.referenceRemarks, reference]
  by_cases callable : prototype.callable = true
  · simp [callable]
  · simp [callable]

/-- A routine of a header can be referenced when no parameter is passed in a register, when the only
one is passed in `ecx`, or when the registers are `ecx` and `edx`. Otherwise the error lists the
registers and counts the parameters on the stack. Without register marks only the convention of
methods limits the number of parameters. -/
theorem Session.refer_written {text : Text} {prototype : Prototype} (plain : IsPlain text)
    (more : definesType (withoutSpecifiers text) = false)
    (written : IsWritten (withoutSpecifiers text) prototype)
    (read : Text → Option (List UInt8)) (file : Text) :
    ∃ database, Database.ofText read file (text ++ [';']) = .ok database ∧
      ∀ (environment : Environment) (session : Session), environment.prototypes = database →
        ¬environment.Suppressed prototype.name →
        let passed := passing prototype.convention prototype.parameters
        let registers := passed.reduceOption
        let accepted := (.ok (.external true), session)
        (session.refer environment prototype.name =
          if registers = [] ∨ (registers = [.ecx] ∧ prototype.parameters.length = 1) ∨
              registers = [.ecx, .edx] then accepted
          else
            (.error ⟨.registerCall (callText prototype registers (passed.countP Option.isNone)),
              session.location⟩, session)) ∧
        ((∀ parameter ∈ prototype.parameters, parameter.register = none) →
          (session.refer environment prototype.name = accepted ↔
            prototype.convention ≠ .thiscall ∨ prototype.parameters.length ≤ 1)) := by
  refine ⟨_, Database.ofText_statement plain (written.prototype?_eq plain more) read file, ?_⟩
  intro environment session same exported
  have found : environment.prototypes.lookup? prototype.name = some prototype.recorded := by
    rw [same, Database.lookup?_insert]
    exact if_pos rfl
  have refer := session.refer_of_found exported found written.kind_ne
  refine ⟨?_, fun unmarked => ?_⟩
  · simp only [refer, signature_recorded, callable_recorded_iff, registers_recorded,
      stackCount_recorded]
  · rw [refer, ← callable_of_unmarked unmarked]
    split
    · rename_i callable
      simp [callable]
    · rename_i refused
      simp [refused]

/-- The convention gives a register to the first parameter only, since the second one has another. -/
theorem Session.refer_written_fastcall :
    ∃ database,
      Database.ofText (fun _ => none) "game.h".toList
        "int __fastcall f(int a, int b@<esi>, int c);".toList = .ok database ∧
      ((Session.start "a.asm".toList).refer ⟨.standard, database, ∅⟩ ['f']).1 =
        .error ⟨.registerCall "int f(ecx, esi, \x7b1 stack\x7d)".toList, ⟨"a.asm".toList, 0, []⟩⟩ := by
  have whole : withoutSpecifiers "int __fastcall f(int a, int b@<esi>, int c)".toList =
      "int __fastcall f(int a, int b@<esi>, int c)".toList := by decide +kernel
  have parts : argumentParts "int a, int b@<esi>, int c".toList =
      ["int a".toList, "int b".toList ++ '@' :: '<' :: ("esi".toList ++ ['>']), "int c".toList] := by
    decide +kernel
  have second : IsArgument ("int b".toList ++ '@' :: '<' :: ("esi".toList ++ ['>']))
      ⟨"int b".toList, some .esi⟩ :=
    .marked (by decide +kernel) (by decide +kernel) (by decide +kernel) []
  have each : List.Forall₂ IsArgument (argumentParts "int a, int b@<esi>, int c".toList)
      [⟨"int a".toList, none⟩, ⟨"int b".toList, some .esi⟩, ⟨"int c".toList, none⟩] := by
    rw [parts]
    exact .cons (.plain (by decide +kernel)) (.cons second (.cons (.plain (by decide +kernel)) .nil))
  have written : IsWritten "int __fastcall f(int a, int b@<esi>, int c)".toList
      ⟨['f'], unwords ["int".toList], .routine, .fastcall,
        [⟨"int a".toList, none⟩, ⟨"int b".toList, some .esi⟩, ⟨"int c".toList, none⟩], false⟩ :=
    @IsWritten.routine _ "int __fastcall f".toList "int __fastcall f".toList
      "int a, int b@<esi>, int c".toList ['f'] ["int".toList] ["__fastcall".toList] .fastcall _ _
      (by decide +kernel) (by decide +kernel)
      (by
        have trimmed : trim "int __fastcall f".toList = "int __fastcall f".toList := by
          decide +kernel
        rw [trimmed]
        exact .whole (by decide +kernel))
      (by decide +kernel) (by simp) (by decide +kernel) (.keyword (by decide)) (by decide)
      (by decide +kernel) (by decide +kernel) (by decide +kernel) each (by decide +kernel)
  obtain ⟨database, loaded, calls⟩ := Session.refer_written (by unfold IsPlain; decide +kernel)
    (by rw [whole]; decide +kernel) (whole.symm ▸ written) (fun _ => none) "game.h".toList
  refine ⟨database, loaded, ?_⟩
  have exported : ¬Environment.Suppressed ⟨.standard, database, ∅⟩ ['f'] := by
    have silent : Environment.suppresses ⟨.standard, database, ∅⟩ ['f'] = false := rfl
    rw [← Environment.suppresses_iff, silent]
    decide
  have refused := (calls ⟨.standard, database, ∅⟩ (.start "a.asm".toList) rfl exported).1
  rw [if_neg (by decide +kernel)] at refused
  have call : callText ⟨['f'], unwords ["int".toList], .routine, .fastcall,
      [⟨"int a".toList, none⟩, ⟨"int b".toList, some .esi⟩, ⟨"int c".toList, none⟩], false⟩
        [.ecx, .esi] 1 = "int f(ecx, esi, \x7b1 stack\x7d)".toList := by decide +kernel
  rw [← call, refused]
  rfl

end DataSegment
