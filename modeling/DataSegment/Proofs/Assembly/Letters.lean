import DataSegment.Assembly.Line
import DataSegment.Proofs.Text.Numeral
import Mathlib.Data.List.Basic

namespace DataSegment

namespace Text

/-- The letters that the output writes of its own accord. -/
def isOwn (letter : Char) : Bool := letter == '\t' || (' ' ≤ letter && letter ≤ '~')

/-- The other letters of a text, in order. -/
def foreign (text : Text) : Text := text.filter fun letter => !isOwn letter

@[simp] theorem foreign_append (first second : Text) :
    foreign (first ++ second) = foreign first ++ foreign second := List.filter_append ..

theorem foreign_flatMap {A : Type} (entries : List A) (text : A → Text) :
    foreign (entries.flatMap text) = entries.flatMap fun entry => foreign (text entry) :=
  List.filter_flatMap

theorem foreign_eq_nil {text : Text} :
    foreign text = [] ↔ ∀ letter ∈ text, isOwn letter = true := by
  simp [foreign, List.filter_eq_nil_iff]

theorem mem_foreign {text : Text} {letter : Char} :
    letter ∈ foreign text ↔ letter ∈ text ∧ isOwn letter = false := by
  simp [foreign]

theorem count_foreign {letter : Char} (other : isOwn letter = false) (text : Text) :
    (foreign text).count letter = text.count letter :=
  List.count_filter (by rw [other, Bool.not_false])

theorem foreign_flatten_congr {A : Type} {entries : List A} {first second : A → Text}
    (same : ∀ entry ∈ entries, foreign (first entry) = foreign (second entry)) :
    foreign (entries.flatMap first) = foreign (entries.flatMap second) := by
  rw [foreign_flatMap, foreign_flatMap]
  exact List.flatMap_congr same

theorem foreign_join {separator : Text} (own : foreign separator = []) (parts : List Text) :
    foreign (join separator parts) = foreign parts.flatten := by
  induction parts with
  | nil => rfl
  | cons part parts inductionHypothesis =>
      cases parts with
      | nil => simp [join]
      | cons next parts =>
          rw [join] at inductionHypothesis
          rw [join, List.intercalate_cons_cons, foreign_append, foreign_append, own,
            inductionHypothesis, List.append_nil, ← foreign_append]
          rfl

theorem isOwn_of_hexValue? {letter : Char} (digit : (hexValue? letter).isSome) :
    isOwn letter = true := by
  have range {low high : Char} (above : ' ' ≤ low) (below : high ≤ '~')
      (within : (decide (low ≤ letter) && decide (letter ≤ high)) = true) :
      isOwn letter = true := by
    simp only [Bool.and_eq_true, decide_eq_true_eq] at within
    have bounds : (' ' ≤ letter) ∧ (letter ≤ '~') :=
      ⟨Char.le_trans above within.1, Char.le_trans within.2 below⟩
    simp [isOwn, bounds.1, bounds.2]
  unfold hexValue? at digit
  split at digit
  · rename_i within
    exact range (by decide) (by decide) within
  · split at digit
    · rename_i within
      exact range (by decide) (by decide) within
    · split at digit
      · rename_i within
        exact range (by decide) (by decide) within
      · contradiction

theorem foreign_paddedNumeral {base : Nat} (large : 1 < base) (small : base ≤ 16)
    (width value : Nat) : foreign (paddedNumeral width base value) = [] := by
  rw [foreign_eq_nil]
  intro letter member
  apply isOwn_of_hexValue?
  rw [← digitValue?_sixteen]
  exact isSome_digitValue?_mono small (isSome_digitValue?_paddedNumeral large small _ _ _ member)

theorem foreign_decimal (value : Nat) : foreign (decimal value) = [] := by
  have bare : decimal value = paddedNumeral 0 10 value := by
    simp [decimal, paddedNumeral, List.leftpad]
  rw [bare, foreign_paddedNumeral (by omega) (by omega)]

theorem foreign_hexadecimal (width value : Nat) : foreign (hexadecimal width value) = [] := by
  have mark : hexadecimal width value = ['0', 'x'] ++ paddedNumeral width 16 value := rfl
  rw [mark, foreign_append, foreign_paddedNumeral (by omega) (by omega)]
  rfl

end Text

namespace Assembly

open Text

/-- The characters that a string takes over. -/
def Piece.source : Piece → Text
  | .quoted letter => [letter]
  | .byte _ => []

def Item.source (symbolPrefix : Text) : Item → Text
  | .number _ => []
  | .symbol name => symbolPrefix ++ name

/-- The texts that a statement takes over. -/
def Statement.source (symbolPrefix : Text) : Statement → Text
  | .string _ pieces => pieces.flatMap Piece.source
  | .float _ literal => literal
  | .list _ items => items.flatMap (Item.source symbolPrefix)
  | .align _ | .fill _ _ _ | .packed _ => []

def labelSource (symbolPrefix : Text) : Option Text → Text
  | some name => symbolPrefix ++ name
  | none => []

/-- The texts that a line takes over, in order. -/
def Line.source (symbolPrefix : Text) (line : Line) : Text :=
  labelSource symbolPrefix line.label ++ line.statement.source symbolPrefix ++
    line.comments.flatten

theorem Piece.foreign_render (next : Option Piece) (piece : Piece) :
    foreign (piece.render next) = foreign piece.source := by
  cases piece with
  | byte value =>
      rw [Piece.render, Piece.source]
      split
      · exact foreign_paddedNumeral (by omega) (by omega) 3 value.toNat
      · exact foreign_paddedNumeral (by omega) (by omega) 2 value.toNat
  | quoted letter =>
      rw [Piece.render, Piece.source]
      split
      · rename_i quote
        subst quote
        split <;> rfl
      · split
        · rename_i backslash
          subst backslash
          rfl
        · rfl

theorem foreign_renderPieces (pieces : List Piece) :
    foreign (renderPieces pieces) = foreign (pieces.flatMap Piece.source) := by
  induction pieces with
  | nil => rfl
  | cons piece pieces inductionHypothesis =>
      rw [renderPieces, foreign_append, piece.foreign_render, inductionHypothesis,
        List.flatMap_cons, foreign_append]

theorem Item.foreign_render (symbolPrefix : Text) (item : Item) :
    foreign (item.render symbolPrefix) = foreign (item.source symbolPrefix) := by
  cases item with
  | number value =>
      rw [Item.render, Item.source]
      split
      · exact foreign_decimal _
      · exact foreign_hexadecimal _ _
  | symbol name => rfl

theorem Statement.foreign_render (symbolPrefix : Text) (statement : Statement) :
    foreign (statement.render symbolPrefix) = foreign (statement.source symbolPrefix) := by
  cases statement with
  | align boundary =>
      have mnemonic : foreign ".align ".toList = [] := by decide
      have printed : (Statement.align boundary).render symbolPrefix =
          ".align ".toList ++ decimal boundary.toNat := rfl
      rw [printed, foreign_append, mnemonic, foreign_decimal]
      rfl
  | string zeroEnded pieces =>
      have mnemonic :
          foreign (if zeroEnded then ".asciz \"".toList else ".ascii \"".toList) = [] := by
        cases zeroEnded <;> decide
      have quote : foreign ['"'] = [] := rfl
      rw [Statement.render_string, foreign_append, foreign_append, mnemonic, quote,
        foreign_renderPieces, List.nil_append, List.append_nil, Statement.source]
  | fill count width value =>
      have mnemonic : foreign ".fill ".toList = [] := by decide
      have comma : foreign [','] = [] := rfl
      rw [Statement.render_fill]
      simp only [foreign_append, mnemonic, comma, foreign_hexadecimal, foreign_decimal]
      rfl
  | packed value =>
      have mnemonic : foreign ".long ".toList = [] := by decide
      rw [Statement.render_packed, foreign_append, mnemonic, foreign_hexadecimal]
      rfl
  | float format literal =>
      have mnemonic : foreign (formatMnemonic format ++ [' ']) = [] := by cases format <;> decide
      have printed : (Statement.float format literal).render symbolPrefix =
          formatMnemonic format ++ [' '] ++ literal := rfl
      rw [printed, foreign_append, mnemonic, List.nil_append, Statement.source]
  | list width items =>
      have mnemonic : foreign (unitMnemonic width ++ [' ']) = [] := by cases width <;> decide
      have separator : foreign [',', ' '] = [] := rfl
      rw [Statement.render_list, foreign_append, mnemonic, foreign_join separator,
        ← List.flatMap_def, List.nil_append, Statement.source]
      exact foreign_flatten_congr fun item _ => item.foreign_render symbolPrefix

/-- A line of data writes nothing but its own letters and the texts that it takes over. -/
theorem Line.foreign_render (symbolPrefix : Text) (line : Line) :
    foreign (line.render symbolPrefix) = foreign (line.source symbolPrefix) := by
  have label : foreign (line.labelText symbolPrefix) =
      foreign (labelSource symbolPrefix line.label) := by
    unfold labelText
    cases line.label with
    | none => rfl
    | some name =>
        have colon : foreign [':'] = [] := rfl
        have tab (width bound : Nat) : foreign (if width < bound then ['\t'] else []) = [] := by
          split <;> rfl
        have spaces (width : Nat) : foreign (if width ≤ 16 then [' ', ' '] else [' ']) = [] := by
          split <;> rfl
        simp only [labelField, labelSource, foreign_append, colon, tab, spaces, List.append_nil]
  have comment : foreign line.commentText = foreign line.comments.flatten := by
    unfold commentText
    split
    · rename_i empty
      rw [List.isEmpty_iff.1 empty]
      rfl
    · rw [foreign_append, foreign_join rfl]
      rfl
  rw [Line.render, Line.source, foreign_append, foreign_append, label, comment,
    line.statement.foreign_render, foreign_append, foreign_append]

end Assembly

end DataSegment
