import DataSegment.Proofs.Header.Fragment
import DataSegment.Proofs.Header.Nesting
import DataSegment.Proofs.Results

namespace DataSegment.Header

open Text

/-- The text of a parameter: single-spaced words in which parentheses match and no comma stands
outside of them, without a register mark and other than the two words of a special meaning. -/
structure IsParameter (text : Text) : Prop where
  filled : text ≠ []
  spaced : unwords (words text) = text
  specified : ∀ word ∈ words text, word ∉ specifiers
  plain : ∀ letter ∈ text, letter ≠ ';' ∧ letter ≠ '\x7b' ∧ letter ≠ '\x7d'
  line : ¬['/', '/'] <:+: text
  block : ¬['/', '*'] <:+: text
  nested : isNested 0 text = true
  unmarked : ¬['@', '<'] <:+: text
  given : text ≠ voidWord ∧ text ≠ ellipsis

theorem IsParameter.fragment {text : Text} (parameter : IsParameter text) : Fragment text where
  spaced := .of_unwords_words parameter.filled parameter.spaced
  specified := parameter.specified
  plain := parameter.plain
  line := parameter.line
  block := parameter.block

def registerMark (register : Register) : Text := '@' :: '<' :: (register.name ++ ['>'])

namespace Parameter

/-- A parameter is followed by the mark of its register. -/
def render (parameter : Parameter) : Text :=
  parameter.text ++ (parameter.register.map registerMark).getD []

variable {parameter : Parameter}

theorem fragment_render (wellFormed : IsParameter parameter.text) : Fragment parameter.render := by
  have marked : ∀ register, Fragment ('<' :: (Register.name register ++ ['>'])) := by
    intro register
    cases register <;> exact .of_solid (by decide) (by decide) (by decide)
  have glue : Glue '@' := ⟨by decide, by decide, by decide, by decide⟩
  rw [render]
  cases parameter.register with
  | none => simpa using wellFormed.fragment
  | some register =>
      exact .append_cons glue (.inr wellFormed.fragment) (.inr (marked register))

theorem isNested_render (wellFormed : IsParameter parameter.text) :
    isNested 0 parameter.render = true := by
  rw [render, isNested_append wellFormed.nested]
  cases parameter.register with
  | none => rfl
  | some register => cases register <;> rfl

/-- No parameter is taken for one of the two words of a special meaning. -/
theorem render_ne (wellFormed : IsParameter parameter.text) :
    parameter.render ≠ [] ∧ parameter.render ≠ voidWord ∧ parameter.render ≠ ellipsis := by
  rw [render]
  cases parameter.register with
  | none => simpa using ⟨wellFormed.filled, wellFormed.given.1, wellFormed.given.2⟩
  | some register =>
      have marked : '<' ∈ parameter.text ++ ((some register).map registerMark).getD [] := by
        simp [registerMark]
      refine ⟨?_, ?_, ?_⟩ <;> intro same <;> rw [same] at marked <;> revert marked <;> decide

theorem ofText_eq (wellFormed : IsParameter parameter.text) :
    Parameter.ofText parameter.render = .ok parameter := by
  obtain ⟨text, register⟩ := parameter
  have wellFormed : IsParameter text := wellFormed
  cases register with
  | none =>
      rw [render, Option.map_none, Option.getD_none, List.append_nil, Parameter.ofText,
        breakOn?_eq_none wellFormed.unmarked]
  | some register =>
      have first : ¬['@', '<'] <:+: text ++ ['@', '<'].dropLast := by
        intro found
        rcases infix_pair_append found with inside | inside | ⟨_, start⟩
        · exact wellFormed.unmarked inside
        · exact absurd inside (by decide)
        · exact absurd start (by decide)
      have name : breakOn? ['>'] (register.name ++ ['>']) = some (register.name, []) := by
        cases register <;> rfl
      have known : Register.ofName? register.name = some register := by
        cases register <;> rfl
      have broken := breakOn?_append first (register.name ++ ['>'])
      rw [render, Option.map_some, Option.getD_some, registerMark, Parameter.ofText]
      rw [List.cons_append, List.cons_append, List.nil_append] at broken
      rw [broken]
      dsimp only
      rw [name]
      dsimp only
      rw [known, wellFormed.fragment.spaced.trim_eq]

end Parameter

/-- Parameters are separated by a comma and a space, and three points can end the list. -/
def parameterParts (parameters : List Parameter) (variadic : Bool) : List Text :=
  parameters.map Parameter.render ++ if variadic then [ellipsis] else []

def parameterList (parameters : List Parameter) (variadic : Bool) : Text :=
  join [',', ' '] (parameterParts parameters variadic)

section

variable {list : List Parameter} (variadic : Bool)

theorem mem_parameterParts {variadic : Bool} {part : Text}
    (member : part ∈ parameterParts list variadic) :
    (∃ parameter ∈ list, part = parameter.render) ∨ part = ellipsis := by
  rcases List.mem_append.1 member with member | member
  · obtain ⟨parameter, known, rfl⟩ := List.mem_map.1 member
    exact .inl ⟨parameter, known, rfl⟩
  · split at member
    · exact .inr (List.mem_singleton.1 member)
    · simp at member

theorem fragment_parameterPart (wellFormed : ∀ parameter ∈ list, IsParameter parameter.text)
    {part : Text} (member : part ∈ parameterParts list variadic) : Fragment part := by
  rcases mem_parameterParts member with ⟨parameter, known, rfl⟩ | rfl
  · exact Parameter.fragment_render (wellFormed parameter known)
  · exact .of_solid (by decide) (by decide) (by decide)

theorem isNested_parameterPart (wellFormed : ∀ parameter ∈ list, IsParameter parameter.text)
    {part : Text} (member : part ∈ parameterParts list variadic) : isNested 0 part = true := by
  rcases mem_parameterParts member with ⟨parameter, known, rfl⟩ | rfl
  · exact Parameter.isNested_render (wellFormed parameter known)
  · rfl

theorem fragment_join {parts : List Text} (filled : parts ≠ [])
    (each : ∀ part ∈ parts, Fragment part) : Fragment (join [',', ' '] parts) := by
  have glue : Glue ',' := ⟨by decide, by decide, by decide, by decide⟩
  induction parts with
  | nil => exact absurd rfl filled
  | cons part parts inductionHypothesis =>
      have first := each part (List.mem_cons_self ..)
      cases parts with
      | nil => simpa [join] using first
      | cons next parts =>
          have rest := inductionHypothesis (by simp) fun other member =>
            each other (List.mem_cons_of_mem _ member)
          have closed : Fragment (part ++ [',']) := .append_cons glue (.inr first) (.inl rfl)
          have both := closed.append_space rest
          rw [List.append_assoc, List.singleton_append] at both
          rw [join_cons_cons]
          exact both

/-- A parameter list is a part of a statement unless it is empty. -/
theorem fragment_parameterList (wellFormed : ∀ parameter ∈ list, IsParameter parameter.text) :
    parameterList list variadic = [] ∨ Fragment (parameterList list variadic) := by
  by_cases empty : parameterParts list variadic = []
  · exact .inl (by rw [parameterList, empty]; rfl)
  · right
    apply fragment_join empty
    intro part member
    exact fragment_parameterPart variadic wellFormed member

theorem closing?_parameterList (wellFormed : ∀ parameter ∈ list, IsParameter parameter.text)
    (after : Text) :
    closing? 0 (parameterList list variadic ++ ')' :: after) =
      some (parameterList list variadic, after) :=
  closing?_join (fun _ member => isNested_parameterPart variadic wellFormed member) after

/-- The parts of a parameter list are cut apart, up to an empty part of an empty list. -/
theorem splitCommas_parameterList (wellFormed : ∀ parameter ∈ list, IsParameter parameter.text) :
    (splitCommas 0 (parameterList list variadic)).map trim = parameterParts list variadic ∨
      (parameterParts list variadic = [] ∧
        (splitCommas 0 (parameterList list variadic)).map trim = [[]]) := by
  by_cases empty : parameterParts list variadic = []
  · exact .inr ⟨empty, by rw [parameterList, empty]; rfl⟩
  · left
    rw [parameterList, splitCommas_join empty fun part member =>
      isNested_parameterPart variadic wellFormed member]
    have trimmed : (parameterParts list variadic).map trim =
        (parameterParts list variadic).map id :=
      List.map_congr_left fun part member =>
        (fragment_parameterPart variadic wellFormed member).spaced.trim_eq
    rw [trimmed, List.map_id]

/-- Registers that are not written come from the convention, by position. -/
theorem assignRegisters_eq (registers : List Register) (list : List Parameter) :
    assignRegisters registers list = list.mapIdx fun index parameter =>
      ⟨parameter.text, parameter.register.or registers[index]?⟩ := by
  induction list generalizing registers with
  | nil => cases registers <;> rfl
  | cons parameter list inductionHypothesis =>
      cases registers with
      | nil =>
          have rest := inductionHypothesis []
          have unchanged : assignRegisters [] list = list := by cases list <;> rfl
          rw [unchanged] at rest
          simp only [List.getElem?_nil, Option.or_none] at rest
          simp only [assignRegisters, List.mapIdx_cons, List.getElem?_nil, Option.or_none, ← rest]
      | cons register registers =>
          rw [assignRegisters, inductionHypothesis registers, List.mapIdx_cons]
          cases known : parameter.register <;> simp

/-- Only the three points are no parameter. -/
theorem filter_parameterParts (wellFormed : ∀ parameter ∈ list, IsParameter parameter.text) :
    (parameterParts list variadic).filter
        (fun part => part ≠ [] ∧ part ≠ voidWord ∧ part ≠ ellipsis) =
      list.map Parameter.render := by
  rw [parameterParts, List.filter_append, List.filter_eq_self.2]
  · cases variadic <;> simp
  · intro part member
    obtain ⟨parameter, known, rfl⟩ := List.mem_map.1 member
    simpa using Parameter.render_ne (wellFormed parameter known)

theorem contains_parameterParts (wellFormed : ∀ parameter ∈ list, IsParameter parameter.text) :
    (parameterParts list variadic).contains ellipsis = variadic := by
  have absent : ellipsis ∉ list.map Parameter.render := by
    intro member
    obtain ⟨parameter, known, same⟩ := List.mem_map.1 member
    exact (Parameter.render_ne (wellFormed parameter known)).2.2 same
  cases variadic with
  | false => simpa [parameterParts] using absent
  | true => simp [parameterParts]

/-- A parameter list is read back. -/
theorem parameters_parameterList (convention : Convention)
    (wellFormed : ∀ parameter ∈ list, IsParameter parameter.text) :
    parameters convention (parameterList list variadic) =
      .ok (assignRegisters convention.defaultRegisters list, variadic) := by
  have written := filter_parameterParts variadic wellFormed
  have ends := contains_parameterParts variadic wellFormed
  have read : (list.map Parameter.render).mapM Parameter.ofText = .ok list := by
    rw [Results.mapM_eq_ok_iff, List.forall₂_map_left_iff]
    apply List.forall₂_same.2
    intro parameter known
    exact Parameter.ofText_eq (wellFormed parameter known)
  unfold parameters
  rcases splitCommas_parameterList variadic wellFormed with parts | ⟨empty, parts⟩
  · simp only [parts, written, ends, read]
    rfl
  · rw [parameterParts, List.append_eq_nil_iff, List.map_eq_nil_iff] at empty
    obtain ⟨rfl, single⟩ := empty
    have ended : variadic = false := by
      cases variadic with
      | false => rfl
      | true => simp at single
    rw [parts, ended]
    cases convention <;> rfl

end

end DataSegment.Header
