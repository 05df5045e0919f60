import DataSegment.Proofs.Header.Forms
import DataSegment.Proofs.Header.RoundTrip
import Mathlib.Data.List.ReduceOption

namespace DataSegment.Header

open Text

/-- A part of a list and the parameter that it declares. Its first register mark counts. -/
inductive IsArgument : Text → Parameter → Prop where
  | plain {part : Text} (unmarked : ¬['@', '<'] <:+: part) : IsArgument part ⟨part, none⟩
  | marked {before word : Text} {register : Register} (first : ¬['@', '<'] <:+: before ++ ['@'])
      (ends : '>' ∉ word) (named : sameLetters register.name word = true) (after : Text) :
      IsArgument (before ++ '@' :: '<' :: (word ++ '>' :: after)) ⟨trim before, some register⟩

/-- The parts of a list without parentheses that declare a parameter. -/
def argumentParts (list : Text) : List Text :=
  ((list.splitOnP (· == ',')).map trim).filter fun part =>
    part ≠ [] ∧ part ≠ voidWord ∧ part ≠ ellipsis

/-- The registers of successive parameters, the written ones before those of the convention. -/
def passing (convention : Convention) (list : List Parameter) : List (Option Register) :=
  list.mapIdx fun index parameter =>
    parameter.register.or convention.defaultRegisters[index]?

section

variable {prototype : Prototype}

theorem map_register_recorded :
    prototype.recorded.parameters.map Parameter.register =
      passing prototype.convention prototype.parameters := by
  apply List.ext_getElem?
  intro index
  rw [Prototype.recorded, passing, List.getElem?_map, List.getElem?_mapIdx, List.getElem?_mapIdx,
    Option.map_map]
  rfl

theorem registers_recorded :
    prototype.recorded.registers =
      (passing prototype.convention prototype.parameters).reduceOption := by
  rw [← map_register_recorded, List.reduceOption, List.filterMap_map]
  rfl

theorem stackCount_recorded :
    prototype.recorded.stackCount =
      (passing prototype.convention prototype.parameters).countP Option.isNone := by
  rw [← map_register_recorded, List.countP_map]
  rfl

end

theorem Register.ofName?_eq_some_iff {word : Text} {register : Register} :
    Register.ofName? word = some register ↔ sameLetters register.name word = true := by
  -- No two registers have the same letters, so the first one that fits is the only one.
  have distinct : ∀ first second : Register,
      first.name.map Char.toLower = second.name.map Char.toLower → first = second := by
    intro first second
    cases first <;> cases second <;> decide
  have listed : register ∈ Register.all := by cases register <;> decide
  have known {other : Register} (found : Register.ofName? word = some other) :
      sameLetters other.name word = true := by
    rw [Register.ofName?] at found
    simpa using List.find?_some found
  constructor
  · exact known
  · intro named
    cases found : Register.ofName? word with
    | none =>
        rw [Register.ofName?, List.find?_eq_none] at found
        exact absurd named (found register listed)
    | some other =>
        have same := known found
        rw [sameLetters, beq_iff_eq] at named same
        rw [distinct other register (same.trans named.symm)]

theorem Parameter.ofText_of_isArgument {part : Text} {parameter : Parameter}
    (argument : IsArgument part parameter) : Parameter.ofText part = .ok parameter := by
  cases argument with
  | plain unmarked => rw [Parameter.ofText, breakOn?_eq_none unmarked]
  | @marked before word register first ends named after =>
      have found : breakOn? ['@', '<'] (before ++ '@' :: '<' :: (word ++ '>' :: after)) =
          some (before, word ++ '>' :: after) := breakOn?_append first _
      have closed : breakOn? ['>'] (word ++ '>' :: after) = some (word, after) :=
        breakOn?_singleton_iff.2 ⟨rfl, ends⟩
      rw [Parameter.ofText, found]
      dsimp only
      rw [closed]
      dsimp only
      rw [Register.ofName?_eq_some_iff.2 named]

/-- Without parentheses every comma ends a part. -/
theorem splitCommas_of_plain {list : Text} (opening : '(' ∉ list) (closing : ')' ∉ list) :
    splitCommas 0 list = list.splitOnP (· == ',') := by
  induction list with
  | nil => rfl
  | cons letter list inductionHypothesis =>
      rw [List.mem_cons, not_or] at opening closing
      have rest := inductionHypothesis opening.2 closing.2
      obtain ⟨part, parts, same⟩ := List.exists_cons_of_ne_nil (List.splitOnP_ne_nil (· == ',') list)
      rw [splitCommas, if_neg (Ne.symm opening.1), if_neg (Ne.symm closing.1),
        List.splitOnP_cons_eq_if_modifyHead, rest, same]
      by_cases comma : letter = ','
      · rw [if_pos ⟨comma, rfl⟩, if_pos (by simp [comma])]
      · rw [if_neg (by simp [comma]), if_neg (by simp [comma])]
        rfl

/-- A list without parentheses is read part by part. -/
theorem parameters_of_isArgument {list : Text} {declared : List Parameter}
    (opening : '(' ∉ list) (closing : ')' ∉ list)
    (each : List.Forall₂ IsArgument (argumentParts list) declared) (convention : Convention) :
    parameters convention list =
      .ok (declared.mapIdx fun index parameter =>
            ⟨parameter.text, parameter.register.or convention.defaultRegisters[index]?⟩,
          ((list.splitOnP (· == ',')).map trim).contains ellipsis) := by
  have read : (argumentParts list).mapM Parameter.ofText = .ok declared :=
    Results.mapM_eq_ok_iff.2 (each.imp fun _ _ => Parameter.ofText_of_isArgument)
  unfold parameters
  rw [splitCommas_of_plain opening closing]
  dsimp only
  rw [← argumentParts, read, ← assignRegisters_eq]
  rfl

/-- A statement that declares a routine or a pointer to one, with a list without parentheses. The
parameters have the registers that are marked. -/
inductive IsWritten (text : Text) : Prototype → Prop where
  | routine {head named list name : Text} {type keywords : List Text} {convention : Convention}
      {declared : List Parameter} {variadic : Bool}
      (parts : text = head ++ '(' :: (list ++ [')'])) (first : '(' ∉ head)
      (marked : UpToMark (trim head) named)
      (words : routineWords named = type ++ (keywords ++ [name]))
      (typed : type ≠ []) (silent : ∀ word ∈ type, Convention.ofKeyword? word = none)
      (called : NamesConvention convention keywords)
      (identifier : isIdentifier name = true) (other : Convention.ofKeyword? name = none)
      (opening : '(' ∉ list) (closing : ')' ∉ list)
      (each : List.Forall₂ IsArgument (argumentParts list) declared)
      (ends : variadic = ((list.splitOnP (· == ',')).map trim).contains ellipsis) :
      IsWritten text ⟨name, unwords type, .routine, convention, declared, variadic⟩
  | pointer {head inner gap list name : Text} {keywords : List Text} {convention : Convention}
      {declared : List Parameter} {variadic : Bool}
      (parts : text = head ++ '(' :: (inner ++ ')' :: (gap ++ '(' :: (list ++ [')']))))
      (first : '(' ∉ head) (inside : '(' ∉ inner) (outside : ')' ∉ inner)
      (white : ∀ letter ∈ gap, isWhite letter = true)
      (star : '*' ∈ inner) (words : pointerWords inner = keywords ++ [name])
      (typed : trim head ≠ [])
      (called : NamesConvention convention keywords)
      (identifier : isIdentifier name = true) (other : Convention.ofKeyword? name = none)
      (opening : '(' ∉ list) (closing : ')' ∉ list)
      (each : List.Forall₂ IsArgument (argumentParts list) declared)
      (ends : variadic = ((list.splitOnP (· == ',')).map trim).contains ellipsis) :
      IsWritten text ⟨name, trim head, .pointer, convention, declared, variadic⟩

/-- A statement that is written in one of the two ways declares the prototype with the registers of
its convention. -/
theorem IsWritten.declares {text : Text} {prototype : Prototype}
    (written : IsWritten text prototype) : Declares text prototype.recorded := by
  cases written with
  | @routine _ _ list _ _ _ convention declared _ parts first marked words typed silent called
      identifier other opening closing each ends =>
      subst ends
      exact .of_routineWords parts first (isBalanced_of_plain opening closing) (by decide) marked
        words typed silent called identifier other
        (parameters_of_isArgument opening closing each convention)
  | @pointer _ _ gap list _ _ convention declared _ parts first inside outside white star words
      typed called identifier other opening closing each ends =>
      have tail : trim (gap ++ '(' :: (list ++ [')'])) = '(' :: (list ++ [')']) := by
        rw [trim, trimStart, List.dropWhile_append_of_pos white,
          List.dropWhile_cons_of_neg (by decide), trimEnd, ← List.cons_append, List.reverse_append,
          List.reverse_singleton, List.singleton_append, List.dropWhile_cons_of_neg (by decide)]
        simp
      subst ends
      exact .of_pointerWords parts first (isBalanced_of_plain inside outside) tail
        (isBalanced_of_plain opening closing) star typed words called identifier other
        (parameters_of_isArgument opening closing each convention)

end DataSegment.Header
