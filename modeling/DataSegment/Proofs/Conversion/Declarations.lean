import DataSegment.Proofs.Conversion.References
import DataSegment.Proofs.Conversion.Values
import DataSegment.Proofs.Listing.Form

namespace DataSegment

open Assembly Listing

namespace Listing.Declaration

/-- The value that is written between the parentheses of a repeat. -/
def fillValue? (inner : Text) : Option UInt64 :=
  if inner = ['?'] then some 0 else number? inner

/-- Quoted text and numbers become a string of bytes. -/
inductive Strings : Declaration → Line → Prop where
  | intro {label : Option Text} {first : Text} {others : List Text} {statement : Statement}
      (filled : [] ∉ first :: others) (quoted : startsQuoted first = true)
      (made : stringStatement (first :: others) = .ok statement) :
      Strings ⟨label, .byte, first :: others⟩ ⟨label, statement, []⟩

/-- A count and a repeated value become a fill. Here `rest` stands behind the parentheses. -/
inductive Fills : Declaration → Text → Line → Prop where
  | intro {label : Option Text} {width : Width} {count mark inner rest : Text}
      {number value : UInt64} (counted : number? count = some number)
      (marked : Text.sameLetters mark ['d', 'u', 'p', '('] = true) (inside : ')' ∉ inner)
      (valued : fillValue? inner = some value) :
      Fills ⟨label, width, [count, mark ++ inner ++ ')' :: rest]⟩ rest
        ⟨label, .fill number width (width.truncate value), []⟩

/-- Four characters between quotes become their codes. -/
inductive Packs : Declaration → Line → Prop where
  | intro {label : Option Text} {word : Text} (packs : isPacked word = true) :
      Packs ⟨label, .double, [word]⟩ ⟨label, .packed (packedValue word), [word]⟩

/-- A single word with a point is passed on as a number. -/
inductive Points : Declaration → Line → Prop where
  | intro {label : Option Text} {width : Width} {word : Text} {format : FloatFormat}
      (unpacked : width = .double → isPacked word = false)
      (wide : width.floatFormat? = some format) (pointed : '.' ∈ word) :
      Points ⟨label, width, [word]⟩ ⟨label, .float format word, []⟩

end Listing.Declaration

/-- Operands of which none is empty become the items of a list. -/
inductive Environment.Lists (environment : Environment) : Declaration → Line → Prop where
  | intro {label : Option Text} {width : Width} {first : Text} {others : List Text}
      {written : List (Item × List Text)} (filled : [] ∉ first :: others)
      (isList : IsList width first others)
      (each : List.Forall₂ (environment.Writes width) (Operand.ofWords width (first :: others))
        written) :
      Lists environment ⟨label, width, first :: others⟩
        ⟨label, .list width (written.map Prod.fst), written.flatMap Prod.snd⟩

namespace Listing

theorem not_mem_singleton_of_isPacked {word : Text} (packs : isPacked word = true) :
    [] ∉ [word] := by
  intro empty
  rw [← List.mem_singleton.1 empty] at packs
  contradiction

end Listing

namespace Environment

variable {environment : Environment} {declaration : Declaration} {line : Line}

theorem repeatedValue_eq_ok_iff {width : Width} {mark inner rest : Text} {value : UInt64}
    (length : mark.length = 4) (inside : ')' ∉ inner) :
    repeatedValue width (mark ++ inner ++ ')' :: rest) = .ok value ↔
      ∃ found, Declaration.fillValue? inner = some found ∧ value = width.truncate found := by
  have zero : width.truncate 0 = 0 := by cases width <;> rfl
  rw [SourceData.repeatedValue_append width length inside, Declaration.fillValue?]
  split
  · simp [zero, eq_comm]
  · rw [Results.map_eq_ok_iff]
    simp only [readNumber_eq_ok_iff, eq_comm]

theorem fillStatement_eq_ok_iff {width : Width} {count word : Text} {statement : Statement} :
    fillStatement width count word = .ok statement ↔
      ∃ number value, number? count = some number ∧ repeatedValue width word = .ok value ∧
        statement = .fill number width value := by
  simp only [fillStatement, Results.bind_eq_ok_iff, readNumber_eq_ok_iff]
  constructor
  · rintro ⟨number, counted, value, valued, ⟨⟩⟩
    exact ⟨number, value, counted, valued, rfl⟩
  · rintro ⟨number, value, counted, valued, rfl⟩
    exact ⟨number, counted, value, valued, rfl⟩

theorem statement_list_eq_ok_iff {width : Width} {operands : List Operand}
    {converted : Statement × List Text} :
    environment.statement width (.list operands) = .ok converted ↔
      ∃ written, List.Forall₂ (environment.Writes width) operands written ∧
        converted = (.list width (written.map Prod.fst), written.flatMap Prod.snd) := by
  rw [statement, Results.map_eq_ok_iff]
  simp only [Results.mapM_eq_ok_iff, item_eq_ok_iff, @eq_comm _ converted]

theorem declarationLine_eq_ok_iff_statement :
    environment.declarationLine declaration = .ok line ↔
      ∃ form converted, [] ∉ declaration.operands ∧
        Form.Reads declaration.width declaration.operands form ∧
        environment.statement declaration.width form = .ok converted ∧
        line = ⟨declaration.label, converted.1, converted.2⟩ := by
  unfold declarationLine
  split
  · rename_i cause failed
    constructor
    · rintro ⟨⟩
    · rintro ⟨form, _, filled, rule, _⟩
      rw [Form.ofOperands_eq_ok_iff.2 ⟨filled, rule⟩] at failed
      contradiction
  · rename_i form found
    rw [Results.map_eq_ok_iff]
    constructor
    · rintro ⟨converted, made, rfl⟩
      obtain ⟨filled, rule⟩ := Form.ofOperands_eq_ok_iff.1 found
      exact ⟨form, converted, filled, rule, made, rfl⟩
    · rintro ⟨other, converted, filled, rule, made, rfl⟩
      obtain rfl := Except.ok.inj (found.symm.trans (Form.ofOperands_eq_ok_iff.2 ⟨filled, rule⟩))
      exact ⟨converted, made, rfl⟩

/-- A count and a repeated value that convert are a fill. -/
theorem exists_fills {label : Option Text} {width : Width} {count word : Text}
    {statement : Statement} (repeats : isRepeat word = true)
    (made : fillStatement width count word = .ok statement) :
    ∃ rest, Declaration.Fills ⟨label, width, [count, word]⟩ rest ⟨label, statement, []⟩ := by
  obtain ⟨number, value, counted, valued, rfl⟩ := fillStatement_eq_ok_iff.1 made
  have closed : ')' ∈ word := by
    unfold repeatedValue at valued
    split at valued
    · rename_i closed
      simpa using closed
    · simp at valued
  obtain ⟨mark, inner, rest, rfl, marked, inside⟩ := exists_parts_of_isRepeat repeats closed
  have length : mark.length = 4 := Text.length_of_sameLetters marked
  obtain ⟨found, read, rfl⟩ := (repeatedValue_eq_ok_iff length inside).1 valued
  exact ⟨rest, .intro counted marked inside read⟩

/-- A fill has the form of a count and a repeated value. -/
theorem exists_form_of_fills {rest : Text} (fills : declaration.Fills rest line) :
    ∃ form converted, [] ∉ declaration.operands ∧
      Form.Reads declaration.width declaration.operands form ∧
      environment.statement declaration.width form = .ok converted ∧
      line = ⟨declaration.label, converted.1, converted.2⟩ := by
  cases fills with
  | @intro label width count mark inner rest number value counted marked inside valued =>
      have length : mark.length = 4 := Text.length_of_sameLetters marked
      have unquoted : startsQuoted count = false :=
        startsQuoted_eq_false (not_mem_of_number? counted (by decide))
      have repeats : isRepeat (mark ++ inner ++ ')' :: rest) = true := by
        rw [List.append_assoc]
        exact isRepeat_append marked _
      have made : fillStatement width count (mark ++ inner ++ ')' :: rest) =
          .ok (.fill number width (width.truncate value)) :=
        fillStatement_eq_ok_iff.2
          ⟨number, _, counted, (repeatedValue_eq_ok_iff length inside).2 ⟨value, valued, rfl⟩, rfl⟩
      refine ⟨_, (.fill number width (width.truncate value), []), ?_,
        .repeated (fun _ => unquoted) repeats, Results.map_eq_ok_iff.2 ⟨_, made, rfl⟩, rfl⟩
      simp [ne_nil_of_number? counted]

/-- A declaration converts in one of five ways and in no other. -/
theorem declarationLine_eq_ok_iff :
    environment.declarationLine declaration = .ok line ↔
      declaration.Strings line ∨ (∃ rest, declaration.Fills rest line) ∨ declaration.Packs line ∨
        declaration.Points line ∨ environment.Lists declaration line := by
  rw [declarationLine_eq_ok_iff_statement]
  constructor
  · obtain ⟨label, width, operands⟩ := declaration
    rintro ⟨form, converted, filled, rule, made, rfl⟩
    cases rule with
    | string bytes quoted =>
        subst bytes
        obtain ⟨statement, found, rfl⟩ := Results.map_eq_ok_iff.1 made
        exact .inl (.intro filled quoted found)
    | repeated unquoted repeats =>
        obtain ⟨statement, found, rfl⟩ := Results.map_eq_ok_iff.1 made
        exact .inr (.inl (exists_fills repeats found))
    | packed double packs =>
        subst double
        obtain rfl := Except.ok.inj made
        exact .inr (.inr (.inl (.intro packs)))
    | float unpacked wide pointed =>
        obtain rfl := Except.ok.inj made
        exact .inr (.inr (.inr (.inl (.intro unpacked wide pointed))))
    | list isList =>
        obtain ⟨written, each, rfl⟩ := statement_list_eq_ok_iff.1 made
        exact .inr (.inr (.inr (.inr (.intro filled isList each))))
  · rintro (strings | ⟨rest, fills⟩ | packs | points | lists)
    · cases strings with
      | @intro label first others statement filled quoted made =>
          exact ⟨_, (statement, []), filled, .string rfl quoted,
            Results.map_eq_ok_iff.2 ⟨statement, made, rfl⟩, rfl⟩
    · exact exists_form_of_fills fills
    · cases packs with
      | intro packs =>
          exact ⟨_, _, not_mem_singleton_of_isPacked packs, .packed rfl packs, rfl, rfl⟩
    · cases points with
      | intro unpacked wide pointed =>
          refine ⟨_, _, ?_, .float unpacked wide pointed, rfl, rfl⟩
          intro empty
          rw [← List.mem_singleton.1 empty] at pointed
          contradiction
    · cases lists with
      | intro filled isList each =>
          exact ⟨_, _, filled, .list isList, statement_list_eq_ok_iff.2 ⟨_, each, rfl⟩, rfl⟩

end Environment

namespace Listing.Declaration

variable {environment : Environment} {declaration : Declaration} {line : Line} {word : Text}

theorem exists_pieces_of_stringStatement {operands : List Text} {statement : Statement}
    (made : stringStatement operands = .ok statement) (member : word ∈ operands) :
    ∃ pieces, stringPieces word = .ok pieces := by
  unfold stringStatement at made
  split at made
  · obtain ⟨pieces, read, _⟩ := Results.map_eq_ok_iff.1 made
    rcases List.mem_cons.1 member with rfl | member
    · exact ⟨pieces, read⟩
    · rw [List.mem_singleton.1 member]
      exact ⟨[.byte 0], rfl⟩
  · obtain ⟨pieces, each, _⟩ := Results.map_eq_ok_iff.1 made
    obtain ⟨found, _, read⟩ := Results.exists_of_mem_left (Results.mapM_eq_ok_iff.1 each) member
    exact ⟨found, read⟩

/-- What is no number in a string is quoted. -/
theorem Strings.startsQuoted_of_unread (strings : declaration.Strings line)
    (member : word ∈ declaration.operands) (unread : number? word = none) :
    startsQuoted word = true := by
  cases strings with
  | intro _ _ made =>
      obtain ⟨pieces, read⟩ := exists_pieces_of_stringStatement made member
      unfold stringPieces at read
      split at read
      · rfl
      · rw [readNumber, unread] at read
        contradiction

theorem Strings.width_eq (strings : declaration.Strings line) : declaration.width = .byte := by
  cases strings
  rfl

/-- What is no number in a fill is the repeated value. -/
theorem Fills.eq_pair_of_unread {rest : Text} (fills : declaration.Fills rest line)
    (member : word ∈ declaration.operands) (unread : number? word = none) :
    isRepeat word = true ∧ ∃ count, declaration.operands = [count, word] ∧ rest <:+ word := by
  cases fills with
  | @intro _ _ count mark inner rest _ _ counted marked =>
      rcases List.mem_cons.1 member with rfl | member
      · rw [unread] at counted
        contradiction
      · obtain rfl := List.mem_singleton.1 member
        refine ⟨?_, count, rfl, ?_⟩
        · rw [List.append_assoc]
          exact isRepeat_append marked _
        · exact (List.suffix_cons _ _).trans (List.suffix_append _ _)

theorem Packs.eq_singleton (packs : declaration.Packs line) (member : word ∈ declaration.operands) :
    declaration.width = .double ∧ declaration.operands = [word] ∧ isPacked word = true := by
  cases packs with
  | intro packs =>
      rw [List.mem_singleton.1 member]
      exact ⟨rfl, rfl, packs⟩

theorem Points.eq_singleton (points : declaration.Points line)
    (member : word ∈ declaration.operands) : declaration.operands = [word] ∧ '.' ∈ word := by
  cases points with
  | intro _ _ pointed =>
      rw [List.mem_singleton.1 member]
      exact ⟨rfl, pointed⟩

/-- A declaration that mentions `offset` converts only as a list. -/
theorem exists_list_of_offset
    (converted : environment.declarationLine declaration = .ok line)
    (named : "offset".toList ∈ declaration.operands) :
    ∃ operands, Form.ofOperands declaration.width declaration.operands = .ok (.list operands) := by
  have unread : number? "offset".toList = none := SourceOperand.number?_offset
  rcases Environment.declarationLine_eq_ok_iff.1 converted with
    strings | ⟨rest, fills⟩ | packs | points | lists
  · have quoted := strings.startsQuoted_of_unread named unread
    contradiction
  · have repeats := (fills.eq_pair_of_unread named unread).1
    contradiction
  · have packed := (packs.eq_singleton named).2.2
    contradiction
  · have pointed := (points.eq_singleton named).2
    exact absurd pointed (by decide)
  · cases lists with
    | intro filled isList each => exact ⟨_, Form.ofOperands_eq_ok_iff.2 ⟨filled, .list isList⟩⟩

end Listing.Declaration

end DataSegment
