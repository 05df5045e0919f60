import DataSegment.Conversion.Reading
import DataSegment.Proofs.Assembly.StringContent
import DataSegment.Proofs.Listing.Literal
import DataSegment.Proofs.Results

namespace DataSegment

open Assembly Listing
open Text (join)
open Text.Latin (decode)

/-- A string of bytes is written as quoted text and numbers. -/
inductive StringPart where
  | fragment (bytes : List UInt8)
  | number (word : Text) (value : UInt8)

namespace StringPart

def written : StringPart → Text
  | .fragment bytes => Quoted.literal (decode bytes)
  | .number word _ => word

def bytes : StringPart → List UInt8
  | .fragment bytes => bytes
  | .number _ value => [value]

/-- A part stands on one line, is read as what it is written for and is kept whole. -/
def Fits (part : StringPart) : Prop :=
  part.written.length ≤ Word.limit ∧
    match part with
    | .fragment bytes => (10 : UInt8) ∉ bytes
    | .number word value => number? word = some value.toUInt64

def pieces : StringPart → List Piece
  | .fragment bytes => (decode bytes).map .quoted
  | .number _ value => [.byte value]

theorem written_of_fits {part : StringPart} (fits : part.Fits) : Written part.written := by
  cases part with
  | fragment bytes => exact Quoted.written_literal _
  | number word value => exact .of_number? fits.2

theorem map_letter_pieces (part : StringPart) :
    part.pieces.map Piece.letter = decode part.bytes := by
  cases part with
  | fragment content =>
      rw [pieces, bytes, List.map_map]
      exact List.map_id _
  | number word value => rfl

theorem stringPieces_written {part : StringPart} (fits : part.Fits) :
    stringPieces part.written = .ok part.pieces := by
  cases part with
  | fragment bytes =>
      rw [written, Quoted.literal, stringPieces, Quoted.ofBody_double]
      rfl
  | number word value =>
      have read : number? word = some value.toUInt64 := fits.2
      have number : readNumber word = .ok value.toUInt64 := by rw [readNumber, read]
      have small : value.toUInt64 < 256 := by
        rw [UInt64.lt_iff_toNat_lt]
        simpa using value.toNat_lt
      have kept : value.toUInt64.toUInt8 = value := by simp
      rw [written, stringPieces]
      · simp only [number]
        rw [if_pos small, kept, pieces]
      · rintro body rfl
        exact not_mem_of_number? read (by decide) (List.mem_cons_self ..)

/-- A lone zero is written for the byte zero. -/
theorem bytes_of_zero {part : StringPart} (fits : part.Fits) (zero : part.written = ['0']) :
    part.bytes = [0] := by
  cases part with
  | fragment bytes => simp [written, Quoted.literal] at zero
  | number word value =>
      have same : word = ['0'] := zero
      have read : number? word = some value.toUInt64 := fits.2
      have known : number? ['0'] = some 0 := by decide
      rw [same, known, Option.some.injEq] at read
      have value_eq : value = 0 := by
        have := congrArg UInt64.toUInt8 read
        simpa using this.symm
      rw [bytes, value_eq]

end StringPart

/-- The statement of a string lays out the bytes of its parts. -/
theorem stringStatement_written {parts : List StringPart} (fits : ∀ part ∈ parts, part.Fits)
    (symbolPrefix : Text) :
    ∃ statement, stringStatement (parts.map StringPart.written) = .ok statement ∧
      readString? 8 (statement.render symbolPrefix) =
        some (decode (parts.flatMap StringPart.bytes)) := by
  unfold stringStatement
  split
  · rename_i fragment same
    obtain ⟨first, last, rfl, rfl, zero⟩ :
        ∃ first last, parts = [first, last] ∧ first.written = fragment ∧
          last.written = ['0'] := by
      match parts with
      | [] | [_] | _ :: _ :: _ :: _ => simp at same
      | [first, last] => simp at same; exact ⟨first, last, rfl, same⟩
    refine ⟨.string true first.pieces, ?_, ?_⟩
    · rw [StringPart.stringPieces_written (fits first (by simp))]
      rfl
    · rw [readString?_render, StringPart.map_letter_pieces, if_pos rfl]
      simp [decode, StringPart.bytes_of_zero (fits last (by simp)) zero]
      rfl
  · have each : (parts.map StringPart.written).mapM stringPieces =
        .ok (parts.map StringPart.pieces) := by
      rw [List.mapM_map]
      exact Results.mapM_of_forall fun part member =>
        StringPart.stringPieces_written (fits part member)
    refine ⟨.string false (parts.map StringPart.pieces).flatten, by rw [each]; rfl, ?_⟩
    rw [readString?_render, if_neg (by decide), List.append_nil]
    simp [decode, List.map_flatten, List.flatMap, Function.comp_def,
      StringPart.map_letter_pieces]

/-- The label of a declaration is a word that is neither a directive nor a keyword. -/
structure IsLabel (name : Text) : Prop where
  written : Written name
  short : name.length ≤ Word.limit
  undirected : Width.ofDirective? name = none
  assumes : name ≠ "assume".toList
  aligns : name ≠ "align".toList

/-- A line that declares a string, with a label where one is given. -/
def stringLine (label : Option Text) (parts : List StringPart) : Text :=
  let declaration := "db".toList ++ ' ' :: join [','] (parts.map StringPart.written)
  match label with
  | some name => name ++ ' ' :: declaration
  | none => declaration

/-- The words of a line that declares a string. -/
def stringWords (label : Option Text) (parts : List StringPart) : List Text :=
  label.toList ++ "db".toList :: parts.map StringPart.written

theorem exists_join_eq_append (separator first : Text) (others : List Text) :
    ∃ after, join separator (first :: others) = first ++ after := by
  cases others with
  | nil => exact ⟨[], by simp [join]⟩
  | cons next others => exact ⟨_, by rw [join, List.intercalate_cons_cons, List.append_assoc]⟩

theorem words_stringLine {label : Option Text} {parts : List StringPart}
    (isLabel : ∀ name, label = some name → IsLabel name) (filled : parts ≠ [])
    (fits : ∀ part ∈ parts, part.Fits) :
    words (stringLine label parts) = (stringWords label parts).map Word.mk := by
  have written : ∀ part ∈ parts.map StringPart.written, Written part := by
    intro part member
    obtain ⟨source, known, rfl⟩ := List.mem_map.1 member
    exact StringPart.written_of_fits (fits source known)
  have directive : Written "db".toList := .of_plain (by decide) (by decide)
  have values := words_join written
  obtain ⟨first, others, rfl⟩ := List.exists_cons_of_ne_nil filled
  rw [List.map_cons] at written values
  obtain ⟨after, parted⟩ :=
    exists_join_eq_append [','] first.written (others.map StringPart.written)
  rw [parted] at values
  have declaration := words_append_blank directive (written _ (List.mem_cons_self ..)) after
  rw [values] at declaration
  cases label with
  | none =>
      simp only [stringLine, List.map_cons, parted]
      rw [declaration]
      rfl
  | some name =>
      have labelled := words_append_blank (isLabel name rfl).written directive
        (' ' :: (first.written ++ after))
      rw [declaration] at labelled
      simp only [stringLine, List.map_cons, parted]
      rw [labelled]
      rfl

theorem Environment.truncationRemarks_of_short {parts : List Text}
    (short : ∀ part ∈ parts, part.length ≤ Word.limit) :
    Environment.truncationRemarks (parts.map Word.mk) = [] := by
  rw [Environment.truncationRemarks, List.map_eq_nil_iff, List.filter_eq_nil_iff]
  intro word member
  obtain ⟨part, known, rfl⟩ := List.mem_map.1 member
  have bound := short part known
  simpa [Word.truncated] using bound

theorem Listing.Entry.ofWords_label {name directive first : Text} (isLabel : IsLabel name)
    {width : Width}
    (known : Width.ofDirective? directive = some width) (others : List Text) :
    Entry.ofWords (name :: directive :: first :: others) =
      .declaration ⟨some name, width, first :: others⟩ := by
  rw [Entry.ofWords, if_neg (by simp), if_neg isLabel.assumes, if_neg isLabel.aligns,
    Entry.ofDeclaration, isLabel.undirected, known]

/-- A directive may have a label before it; without one its line may not end the segment. -/
theorem Listing.Entry.ofWords_directive {label : Option Text}
    (isLabel : ∀ name, label = some name → IsLabel name) {directive first : Text} {width : Width}
    (known : Width.ofDirective? directive = some width) {others : List Text}
    (goes : label = none → others = [] → first ≠ "ends".toList) :
    Entry.ofWords (label.toList ++ directive :: first :: others) =
      .declaration ⟨label, width, first :: others⟩ := by
  cases label with
  | some name => exact Entry.ofWords_label (isLabel name rfl) known others
  | none =>
      have other {word : Text} (plain : Width.ofDirective? word = none) : directive ≠ word := by
        rintro rfl
        rw [plain] at known
        contradiction
      have inside : ¬(others = [] ∧
          (first = ['e', 'n', 'd', 's'] ∨ directive = ['e', 'n', 'd'])) := by
        rintro ⟨alone, same | same⟩
        · exact goes rfl alone same
        · exact other rfl same
      rw [Option.toList_none, List.nil_append, Entry.ofWords, if_neg inside, if_neg (other rfl),
        if_neg (other rfl), Entry.ofDeclaration, known]

/-- A line of a directive and at least one operand, with a label or without, declares data. -/
theorem ofWords_stringWords {label : Option Text} {parts : List StringPart}
    (isLabel : ∀ name, label = some name → IsLabel name) {bytes : List UInt8}
    (first : parts.head? = some (.fragment bytes)) :
    Entry.ofWords (stringWords label parts) =
      .declaration ⟨label, .byte, parts.map StringPart.written⟩ := by
  obtain ⟨others, rfl⟩ : ∃ others, parts = .fragment bytes :: others := by
    cases parts with
    | nil => simp at first
    | cons part others => exact ⟨others, by simpa using first⟩
  refine Entry.ofWords_directive isLabel rfl fun _ _ => ?_
  simp [StringPart.written, Quoted.literal]

/-- Operands of which the first is quoted text make a string of bytes. -/
theorem ofOperands_written {parts : List StringPart} {bytes : List UInt8}
    (first : parts.head? = some (.fragment bytes)) (fits : ∀ part ∈ parts, part.Fits) :
    Form.ofOperands .byte (parts.map StringPart.written) =
      .ok (.string (parts.map StringPart.written)) := by
  have filled : (parts.map StringPart.written).any List.isEmpty = false := by
    simp only [List.any_map, List.any_eq_false, Function.comp_apply, List.isEmpty_iff]
    exact fun part member => (StringPart.written_of_fits (fits part member)).filled
  obtain ⟨others, rfl⟩ : ∃ others, parts = .fragment bytes :: others := by
    cases parts with
    | nil => simp at first
    | cons part others => exact ⟨others, by simpa using first⟩
  rw [List.map_cons] at filled ⊢
  unfold Form.ofOperands
  dsimp only
  rw [if_neg (by simp [filled]), if_pos ⟨rfl, rfl⟩]

/-- A string of quoted text and numbers, of which the first is quoted text, becomes one string
directive that lays out its bytes. -/
theorem readInside_stringLine (environment : Environment) {label : Option Text}
    {parts : List StringPart} (isLabel : ∀ name, label = some name → IsLabel name)
    {bytes : List UInt8} (first : parts.head? = some (.fragment bytes))
    (fits : ∀ part ∈ parts, part.Fits) :
    ∃ line directive,
      (environment.readInside (stringLine label parts)).result = .ok (.inside, [.data line]) ∧
      (environment.readInside (stringLine label parts)).remarks = [] ∧
      line.label = label ∧
      line.render environment.settings.symbolPrefix =
        line.labelText environment.settings.symbolPrefix ++ directive ∧
      readString? 8 directive = some (decode (parts.flatMap StringPart.bytes)) := by
  have filled : parts ≠ [] := by
    intro equal
    subst equal
    simp at first
  have short : ∀ word ∈ stringWords label parts, word.length ≤ Word.limit := by
    intro word member
    rcases List.mem_append.1 member with named | member
    · exact (isLabel word (by simpa using named)).short
    · rcases List.mem_cons.1 member with rfl | member
      · decide
      · obtain ⟨part, known, rfl⟩ := List.mem_map.1 member
        exact (fits part known).1
  obtain ⟨statement, made, read⟩ := stringStatement_written fits environment.settings.symbolPrefix
  have line : environment.declarationLine ⟨label, .byte, parts.map StringPart.written⟩ =
      .ok ⟨label, statement, []⟩ := by
    rw [Environment.declarationLine, ofOperands_written first fits]
    simp only [Environment.statement, made]
    rfl
  refine ⟨⟨label, statement, []⟩, statement.render environment.settings.symbolPrefix, ?_, ?_, rfl,
    List.append_nil _, read⟩
  · rw [Environment.readInside, words_stringLine isLabel filled fits]
    simp only [map_text_of_short short, ofWords_stringWords isLabel first,
      Environment.readEntry, line]
    rfl
  · rw [Environment.readInside, words_stringLine isLabel filled fits]
    simp only [map_text_of_short short, ofWords_stringWords isLabel first,
      Environment.truncationRemarks_of_short short, Environment.entryRemarks,
      Environment.declarationRemarks, ofOperands_written first fits, Environment.formRemarks,
      List.append_nil]

/-- A double quote, a single quote, a backslash before a digit and a line feed before a letter
that could be a hexadecimal digit. -/
theorem readInside_stringLine_escapes :
    ∃ line directive,
      (Environment.readInside ⟨.standard, .empty, ∅⟩
        (stringLine (some "text".toList)
          [.fragment [34, 39, 92, 49], .number "0Ah".toList 10, .fragment [98]])).result =
        .ok (.inside, [.data line]) ∧
      line.render ['_'] = line.labelText ['_'] ++ directive ∧
      readString? 8 directive = some ['"', '\'', '\\', '1', '\n', 'b'] := by
  have fits : ∀ part ∈ [StringPart.fragment [34, 39, 92, 49], .number "0Ah".toList 10,
      .fragment [98]], part.Fits := by
    simp only [List.forall_mem_cons, StringPart.Fits]
    exact ⟨⟨by decide, by decide⟩, ⟨by decide, by decide⟩, ⟨by decide, by decide⟩, by simp⟩
  have label : ∀ name, some "text".toList = some name → IsLabel name := by
    rintro name ⟨⟩
    exact ⟨.of_plain (by decide) (by decide), by decide, rfl, by decide, by decide⟩
  obtain ⟨line, directive, converted, _, _, rendered, read⟩ :=
    readInside_stringLine ⟨.standard, .empty, ∅⟩ label rfl fits
  exact ⟨line, directive, converted, rendered, read⟩

end DataSegment
