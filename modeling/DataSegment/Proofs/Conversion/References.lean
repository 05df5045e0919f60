import DataSegment.Conversion.Statement
import DataSegment.Proofs.Results
import Mathlib.Data.List.Infix

namespace DataSegment

open Assembly Listing

theorem readNumber_eq_ok_iff {word : Text} {value : UInt64} :
    readNumber word = .ok value ↔ number? word = some value := by
  unfold readNumber
  split <;> simp_all

namespace Environment

/-- A name is suppressed when it is internal or listed. -/
def Suppressed (environment : Environment) (name : Text) : Prop :=
  (∃ start ∈ environment.settings.internalPrefixes, start <+: name) ∨
    (∃ letter ∈ name, letter ∈ environment.settings.internalLetters) ∨
    name ∈ environment.suppressed

/-- A name can be referenced when it stands for data, for a routine that takes its parameters in
suitable registers, or for something without a prototype that was not guessed to be a routine. -/
inductive Admits (environment : Environment) (name : Text) : Prop where
  | data {prototype : Header.Prototype}
      (found : environment.prototypes.lookup? name = some prototype)
      (kind : prototype.kind = .data)
  | routine {prototype : Header.Prototype}
      (found : environment.prototypes.lookup? name = some prototype)
      (kind : prototype.kind ≠ .data)
      (registers : prototype.registers = [] ∨
        prototype.registers = [.ecx] ∧ prototype.stackCount = 0 ∨
        prototype.registers = [.ecx, .edx])
  | unknown (missing : environment.prototypes.lookup? name = none)
      (unguessed : ¬environment.settings.guessedPrefix <+: name)

variable {environment : Environment} {name : Text}

theorem suppresses_iff : environment.suppresses name = true ↔ environment.Suppressed name := by
  simp only [suppresses, Suppressed, Bool.or_eq_true, List.any_eq_true, List.isPrefixOf_iff_prefix,
    List.contains_eq_mem, decide_eq_true_eq, Std.TreeSet.contains_iff_mem, or_assoc]

theorem callable_iff {prototype : Header.Prototype} :
    prototype.callable = true ↔ prototype.registers = [] ∨
      prototype.registers = [.ecx] ∧ prototype.stackCount = 0 ∨
      prototype.registers = [.ecx, .edx] := by
  unfold Header.Prototype.callable
  split
  · rename_i same
    simp [same]
  · rename_i same
    simp [same]
  · rename_i same
    simp [same]
  · rename_i others alone several
    simp only [Bool.false_eq_true, false_iff, not_or, not_and]
    exact ⟨others, fun same _ => alone same, several⟩

theorem referable_iff {prototype : Header.Prototype}
    (found : environment.prototypes.lookup? name = some prototype) :
    prototype.referable = true ↔ environment.Admits name := by
  rw [Header.Prototype.referable, Bool.or_eq_true, beq_iff_eq, callable_iff]
  constructor
  · intro allowed
    by_cases kind : prototype.kind = .data
    · exact .data found kind
    · exact .routine found kind (allowed.resolve_left kind)
  · rintro (⟨same, kind⟩ | ⟨same, _, registers⟩ | ⟨missing, _⟩)
    · obtain rfl := Option.some.inj (found.symm.trans same)
      exact .inl kind
    · obtain rfl := Option.some.inj (found.symm.trans same)
      exact .inr registers
    · simp [found] at missing

/-- The suppression of a name is decided before its prototype is looked at. -/
theorem reference_eq_ok_iff {reference : Reference} :
    environment.reference name = .ok reference ↔
      (environment.Suppressed name ∧ reference = .suppressed) ∨
      (¬environment.Suppressed name ∧ environment.Admits name ∧
        reference = .external (environment.prototypes.lookup? name).isSome) := by
  rw [Environment.reference, ← suppresses_iff]
  split
  · rename_i suppressed
    simp [suppressed, eq_comm]
  · rename_i exported
    simp only [exported, false_and, Bool.false_eq_true, not_false_eq_true, true_and, false_or]
    split
    · rename_i missing
      split
      · rename_i guessed
        have refused : ¬environment.Admits name := by
          rintro (⟨found, _⟩ | ⟨found, _, _⟩ | ⟨_, unguessed⟩)
          · simp [missing] at found
          · simp [missing] at found
          · exact unguessed (List.isPrefixOf_iff_prefix.1 guessed)
        simp [refused]
      · rename_i unguessed
        have admitted : environment.Admits name :=
          .unknown missing fun guessed => unguessed (List.isPrefixOf_iff_prefix.2 guessed)
        simp [admitted, missing, eq_comm]
    · rename_i prototype found
      have admitted := referable_iff found
      split
      · rename_i allowed
        simp [admitted.1 allowed, found, eq_comm]
      · rename_i refused
        simp [← admitted, refused]

/-- What an operand of a list is written as, and what it leaves to the comment. -/
inductive Writes (environment : Environment) (width : Width) :
    Operand → Item × List Text → Prop where
  | suppressed {name : Text} (suppressed : environment.Suppressed name) :
      Writes environment width (.label name) (.number 0, [name])
  | external {name : Text} (exported : ¬environment.Suppressed name)
      (admitted : environment.Admits name) :
      Writes environment width (.label name) (.symbol name, [])
  | unset : Writes environment width .unset (.number 0, [])
  | number {word : Text} {value : UInt64} (read : number? word = some value) :
      Writes environment width (.number word) (.number (width.truncate value), [])

theorem item_eq_ok_iff {width : Width} {operand : Operand} {written : Item × List Text} :
    environment.item width operand = .ok written ↔ environment.Writes width operand written := by
  cases operand with
  | label name =>
      rw [item, Results.map_eq_ok_iff]
      constructor
      · rintro ⟨reference, allowed, rfl⟩
        rcases reference_eq_ok_iff.1 allowed with ⟨suppressed, rfl⟩ | ⟨exported, admitted, rfl⟩
        · exact .suppressed suppressed
        · exact .external exported admitted
      · rintro (suppressed | ⟨exported, admitted⟩)
        · exact ⟨_, reference_eq_ok_iff.2 (.inl ⟨suppressed, rfl⟩), rfl⟩
        · exact ⟨_, reference_eq_ok_iff.2 (.inr ⟨exported, admitted, rfl⟩), rfl⟩
  | unset =>
      constructor
      · rintro ⟨⟩
        exact .unset
      · rintro ⟨⟩
        rfl
  | number word =>
      rw [item, Results.map_eq_ok_iff]
      constructor
      · rintro ⟨value, read, rfl⟩
        exact .number (readNumber_eq_ok_iff.1 read)
      · rintro ⟨⟩
        rename_i value read
        exact ⟨value, readNumber_eq_ok_iff.2 read, rfl⟩

end Environment

end DataSegment
