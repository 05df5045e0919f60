import DataSegment.Header.Declaration
import DataSegment.Proofs.Header.Scan
import DataSegment.Proofs.Text.Words

namespace DataSegment.Header

open Text

theorem letter_of_isIdentifier {name : Text} (identifier : isIdentifier name = true) :
    ∀ letter ∈ name, isIdentifierLetter letter = true := by
  cases name with
  | nil => simp
  | cons first rest =>
      simp only [isIdentifier, Bool.and_eq_true, List.all_eq_true] at identifier
      exact identifier.2

theorem not_mem_of_isIdentifier {name : Text} (identifier : isIdentifier name = true)
    {letter : Char} (foreign : isIdentifierLetter letter = false) : letter ∉ name := by
  intro member
  rw [letter_of_isIdentifier identifier letter member] at foreign
  contradiction

theorem ne_nil_of_isIdentifier {name : Text} (identifier : isIdentifier name = true) :
    name ≠ [] := by
  intro equal
  subst equal
  simp [isIdentifier] at identifier

theorem solid_of_isIdentifierLetter {letter : Char} (known : isIdentifierLetter letter = true) :
    isWhite letter = false := by
  have absent : ∀ other ∈ whiteSpace, isIdentifierLetter other = false := by decide
  rw [isWhite, List.contains_eq_mem, decide_eq_false_iff_not]
  intro member
  rw [absent letter member] at known
  contradiction

/-- The characters that end a statement, belong to a body or can open a comment. -/
def restricted : List Char := [';', '\x7b', '\x7d', '/']

theorem unrestricted_of_isIdentifier {name : Text} (identifier : isIdentifier name = true) :
    ∀ letter ∈ name, isWhite letter = false ∧ letter ∉ restricted := by
  intro letter member
  have known := letter_of_isIdentifier identifier letter member
  have absent : ∀ other ∈ restricted, isIdentifierLetter other = false := by decide
  refine ⟨solid_of_isIdentifierLetter known, fun listed => ?_⟩
  rw [absent letter listed] at known
  contradiction

/-- A part of a statement: single-spaced words that are no specifiers, without semicolons, braces
and comment marks. -/
structure Fragment (text : Text) : Prop where
  spaced : SingleSpaced text
  specified : ∀ word ∈ words text, word ∉ specifiers
  plain : ∀ letter ∈ text, letter ≠ ';' ∧ letter ≠ '\x7b' ∧ letter ≠ '\x7d'
  line : ¬['/', '/'] <:+: text
  block : ¬['/', '*'] <:+: text

/-- A character that neither separates words nor belongs to a specifier or a comment mark. -/
structure Glue (letter : Char) : Prop where
  solid : isWhite letter = false
  foreign : ∀ word ∈ specifiers, letter ∉ word
  plain : letter ≠ ';' ∧ letter ≠ '\x7b' ∧ letter ≠ '\x7d'
  apart : letter ≠ '/' ∧ letter ≠ '*'

namespace Fragment

theorem of_solid {text : Text} (filled : text ≠ []) (unspecified : text ∉ specifiers)
    (each : ∀ letter ∈ text, isWhite letter = false ∧ letter ∉ restricted) : Fragment text where
  spaced := .of_solid filled fun letter member => (each letter member).1
  specified word member := by
    rw [words_of_solid filled fun letter member => (each letter member).1,
      List.mem_singleton] at member
    rwa [member]
  plain letter member := by
    have free := (each letter member).2
    simp only [restricted, List.mem_cons, List.not_mem_nil, or_false, not_or] at free
    exact ⟨free.1, free.2.1, free.2.2.1⟩
  line found := (each '/' (found.subset (by simp))).2 (by decide)
  block found := (each '/' (found.subset (by simp))).2 (by decide)

theorem of_isIdentifier {name : Text} (identifier : isIdentifier name = true)
    (unspecified : name ∉ specifiers) : Fragment name :=
  of_solid (ne_nil_of_isIdentifier identifier) unspecified
    (unrestricted_of_isIdentifier identifier)

/-- Two parts with a space between them. -/
theorem append_space {first second : Text} (left : Fragment first) (right : Fragment second) :
    Fragment (first ++ ' ' :: second) where
  spaced := left.spaced.append_space right.spaced
  specified word member := by
    rw [words_append_white (by decide)] at member
    rcases List.mem_append.1 member with member | member
    · exact left.specified word member
    · exact right.specified word member
  plain letter member := by
    rcases List.mem_append.1 member with member | member
    · exact left.plain letter member
    · rcases List.mem_cons.1 member with rfl | member
      · decide
      · exact right.plain letter member
  line found := by
    rcases infix_pair_append_cons (by decide) (by decide) found with inside | inside
    · exact left.line inside
    · exact right.line inside
  block found := by
    rcases infix_pair_append_cons (by decide) (by decide) found with inside | inside
    · exact left.block inside
    · exact right.block inside

theorem unwords {entries : List Text} (filled : entries ≠ [])
    (each : ∀ word ∈ entries, Fragment word) : Fragment (unwords entries) := by
  induction entries with
  | nil => exact absurd rfl filled
  | cons word entries inductionHypothesis =>
      have first := each word (List.mem_cons_self ..)
      cases entries with
      | nil => simpa [Text.unwords, join] using first
      | cons next entries =>
          rw [unwords_cons_cons]
          exact first.append_space (inductionHypothesis (by simp) fun other member =>
            each other (List.mem_cons_of_mem _ member))

theorem of_glue {letter : Char} (glue : Glue letter) : Fragment [letter] := by
  refine of_solid (by simp) (fun specifier => glue.foreign _ specifier (by simp)) ?_
  intro other member
  rw [List.mem_singleton.1 member]
  refine ⟨glue.solid, fun listed => ?_⟩
  simp only [restricted, List.mem_cons, List.not_mem_nil, or_false] at listed
  have plain := glue.plain
  have apart := glue.apart
  simp_all

/-- Two parts that meet in a character. Either can be missing. -/
theorem append_cons {first second : Text} {letter : Char} (glue : Glue letter)
    (left : first = [] ∨ Fragment first) (right : second = [] ∨ Fragment second) :
    Fragment (first ++ letter :: second) where
  spaced := by
    have middle := (of_glue glue).spaced
    rcases left with rfl | left <;> rcases right with rfl | right
    · exact middle
    · exact middle.append right.spaced
    · exact left.spaced.append middle
    · exact left.spaced.append (middle.append right.spaced)
  specified word member := by
    rcases mem_words_append_cons glue.solid member with member | member | member
    · rcases left with rfl | left
      · simp at member
      · exact left.specified word member
    · rcases right with rfl | right
      · simp at member
      · exact right.specified word member
    · exact fun specifier => glue.foreign word specifier member
  plain other member := by
    rcases List.mem_append.1 member with member | member
    · rcases left with rfl | left
      · simp at member
      · exact left.plain other member
    · rcases List.mem_cons.1 member with rfl | member
      · exact glue.plain
      · rcases right with rfl | right
        · simp at member
        · exact right.plain other member
  line found := by
    rcases infix_pair_append_cons glue.apart.1.symm glue.apart.1.symm found with inside | inside
    · rcases left with rfl | left
      · simp at inside
      · exact left.line inside
    · rcases right with rfl | right
      · simp at inside
      · exact right.line inside
  block found := by
    rcases infix_pair_append_cons glue.apart.1.symm glue.apart.2.symm found with inside | inside
    · rcases left with rfl | left
      · simp at inside
      · exact left.block inside
    · rcases right with rfl | right
      · simp at inside
      · exact right.block inside

/-- A statement that starts like a word is found as it stands. -/
theorem isStatement {text : Text} (fragment : Fragment text)
    (starts : ∀ letter, text.head? = some letter → letter ≠ '#') : IsStatement text where
  starts := by
    obtain ⟨first, rest, rfl⟩ := List.exists_cons_of_ne_nil fragment.spaced.ne_nil
    exact ⟨first, rest, rfl, fragment.spaced.head_solid, starts first rfl⟩
  plain letter member := by
    obtain ⟨ends, opens, closes⟩ := fragment.plain letter member
    refine ⟨ends, opens, closes, ?_⟩
    intro equal
    subst equal
    exact absurd (fragment.spaced.plain _ member (by decide)) (by decide)
  line := fragment.line
  block := fragment.block

theorem withoutSpecifiers_eq {text : Text} (fragment : Fragment text)
    (unannotated : ¬annotationMark <:+: text) : withoutSpecifiers text = text := by
  have kept : dropAnnotations text = text := by
    rw [dropAnnotations]
    split
    · rfl
    · rename_i found
      rw [breakOn?_eq_none unannotated] at found
      simp at found
  have all : (words text).filter (fun word => !specifiers.contains word) = words text := by
    rw [List.filter_eq_self]
    intro word member
    simpa using fragment.specified word member
  rw [withoutSpecifiers, kept, all, fragment.spaced.unwords_words]

end Fragment

end DataSegment.Header
