import DataSegment.Proofs.Conversion.Declarations

namespace DataSegment

open Assembly Listing

namespace Listing

/-- A decimal number with a point. -/
def IsDecimal (word : Text) : Prop :=
  ∃ sign whole fraction, word = sign ++ whole ++ '.' :: fraction ∧ (sign = [] ∨ sign = ['-']) ∧
    whole ≠ [] ∧ ∀ letter ∈ whole ++ fraction, letter.isDigit

theorem startsNumeric_of_isDecimal {word : Text} (decimal : IsDecimal word) :
    startsNumeric word = true := by
  obtain ⟨sign, whole, fraction, rfl, signed, filled, digits⟩ := decimal
  obtain ⟨first, rest, rfl⟩ := List.exists_cons_of_ne_nil filled
  have digit : first.isDigit = true := digits first (by simp)
  rcases signed with rfl | rfl
  · have other : first ≠ '-' := by
      rintro rfl
      contradiction
    unfold startsNumeric
    split
    · rename_i same
      exact absurd (List.cons.inj same).1 other
    · simpa using digit
  · simpa [startsNumeric] using digit

theorem mem_of_isDecimal {word : Text} (decimal : IsDecimal word) : '.' ∈ word := by
  obtain ⟨sign, whole, fraction, rfl, _⟩ := decimal
  simp

/-- A word with one of these letters is neither a number nor a mark. -/
theorem number?_eq_none_of_mem {word : Text} {letter : Char} (member : letter ∈ word)
    (foreign : letter ∈ ['\'', '(', '.']) :
    number? word = none ∧ word ≠ ['?'] ∧ word ≠ "offset".toList := by
  have outside : ∀ letter ∈ ['\'', '(', '.'],
      isNumberLetter letter = false ∧ letter ∉ ['?'] ∧ letter ∉ "offset".toList := by decide
  obtain ⟨unread, unset, plain⟩ := outside letter foreign
  refine ⟨?_, ?_, ?_⟩
  · cases read : number? word with
    | none => rfl
    | some value => exact absurd member (not_mem_of_number? read unread)
  · rintro rfl
    exact unset member
  · rintro rfl
    exact plain member

end Listing

/-- A line refers to a name by its symbol, or keeps it in the comment when it is suppressed. -/
inductive Environment.Refers (environment : Environment) (line : Line) (name : Text) : Prop where
  | suppressed (suppressed : environment.Suppressed name) (noted : name ∈ line.comments)
  | external (exported : ¬environment.Suppressed name) (admitted : environment.Admits name)
      {width : Width} {items : List Item} (list : line.statement = .list width items)
      (listed : .symbol name ∈ items)

/-- The word stands behind `offset`. -/
def Listing.Declaration.Offsets (declaration : Declaration) (word : Text) : Prop :=
  ["offset".toList, word] <:+: declaration.operands

instance (declaration : Declaration) (word : Text) : Decidable (declaration.Offsets word) :=
  inferInstanceAs (Decidable (["offset".toList, word] <:+: declaration.operands))

variable {environment : Environment} {declaration : Declaration} {line : Line} {word : Text}

namespace Environment.Lists

/-- A word with a foreign letter can only be a name. -/
theorem refers (lists : environment.Lists declaration line) (member : word ∈ declaration.operands)
    {letter : Char} (holds : letter ∈ word) (foreign : letter ∈ ['\'', '(', '.']) :
    (declaration.width = .double ∧ startsNumeric word = false ∨ declaration.Offsets word) ∧
      environment.Refers line word := by
  obtain ⟨unread, unset, plain⟩ := number?_eq_none_of_mem holds foreign
  cases lists with
  | @intro label width first others written filled isList each =>
      have named : Operand.label word ∈ Operand.ofWords width (first :: others) ∧
          (width = .double ∧ startsNumeric word = false ∨
            ["offset".toList, word] <:+: first :: others) := by
        rcases Operand.mem_ofWords member plain with ⟨named, behind⟩ | own
        · exact ⟨named, .inr behind⟩
        · rw [Operand.ofWord, if_neg unset] at own
          split at own
          · rename_i bare
            exact ⟨own, .inl bare⟩
          · obtain ⟨_, _, written⟩ := Results.exists_of_mem_left each own
            cases written with
            | number read =>
                rw [unread] at read
                contradiction
      obtain ⟨label, place⟩ := named
      refine ⟨place, ?_⟩
      obtain ⟨item, listed, written⟩ := Results.exists_of_mem_left each label
      cases written with
      | suppressed suppressed =>
          exact .suppressed suppressed (List.mem_flatMap.2 ⟨_, listed, List.mem_singleton_self _⟩)
      | external exported admitted =>
          exact .external exported admitted rfl (List.mem_map.2 ⟨_, listed, rfl⟩)

end Environment.Lists

namespace Environment

/-- A declaration with a repeated value converts to a fill or treats the value as a name, except
that a single one with a point is passed on. -/
theorem declarationLine_repeat (member : word ∈ declaration.operands)
    (repeats : isRepeat word = true) :
    (environment.declarationLine declaration = .ok line ↔
      (∃ rest, declaration.Fills rest line) ∨ declaration.Points line ∨
        environment.Lists declaration line) ∧
    (∀ rest, declaration.Fills rest line →
      ∃ count, declaration.operands = [count, word] ∧ rest <:+ word) ∧
    (declaration.Points line → declaration.operands = [word] ∧ '.' ∈ word) ∧
    (environment.Lists declaration line →
      (declaration.width = .double ∨ declaration.Offsets word) ∧ environment.Refers line word) := by
  have unquoted := startsQuoted_of_isRepeat repeats
  have paren := mem_of_isRepeat repeats
  obtain ⟨unread, _⟩ := number?_eq_none_of_mem paren (by decide)
  refine ⟨?_, ?_, ?_, ?_⟩
  · rw [declarationLine_eq_ok_iff]
    constructor
    · rintro (strings | fills | packs | points | lists)
      · rw [strings.startsQuoted_of_unread member unread] at unquoted
        contradiction
      · exact .inl fills
      · have packed := (packs.eq_singleton member).2.2
        simp [isPacked, unquoted] at packed
      · exact .inr (.inl points)
      · exact .inr (.inr lists)
    · rintro (fills | points | lists)
      · exact .inr (.inl fills)
      · exact .inr (.inr (.inr (.inl points)))
      · exact .inr (.inr (.inr (.inr lists)))
  · exact fun rest fills => (fills.eq_pair_of_unread member unread).2
  · exact fun points => points.eq_singleton member
  · intro lists
    obtain ⟨place, refers⟩ := lists.refers member paren (by decide)
    exact ⟨place.imp_left And.left, refers⟩

theorem declarationLine_repeat_unset :
    "dup(?)".toList ∈ ["16".toList, "dup(?)".toList] ∧ isRepeat "dup(?)".toList = true ∧
      (Environment.mk .standard .empty ∅).declarationLine
        ⟨none, .double, ["16".toList, "dup(?)".toList]⟩ = .ok ⟨none, .fill 16 .double 0, []⟩ := by
  have member : "dup(?)".toList ∈ ["16".toList, "dup(?)".toList] := by decide
  have fills : (Declaration.mk none .double ["16".toList, "dup(?)".toList]).Fills []
      ⟨none, .fill 16 .double 0, []⟩ :=
    @Declaration.Fills.intro none .double "16".toList "dup(".toList ['?'] [] 16 0 (by decide)
      (by decide) (by decide) (by decide)
  exact ⟨member, by decide, (declarationLine_repeat member (by decide)).1.2 (.inl ⟨[], fills⟩)⟩

/-- A repeated value in a list of three is written as a symbol. -/
theorem declarationLine_repeat_symbol :
    ∃ line, (Environment.mk .standard .empty ∅).declarationLine
        ⟨none, .double, ["1".toList, "2".toList, "dup(3)".toList]⟩ = .ok line ∧
      isRepeat "dup(3)".toList = true ∧
      line.statement.render Settings.standard.symbolPrefix = ".long 1, 2, _dup(3)".toList := by
  refine ⟨⟨none, .list .double [.number 1, .number 2, .symbol "dup(3)".toList], []⟩, ?_, ?_, ?_⟩
  · rfl
  · decide
  · decide

/-- Quoted text becomes no string in units of more than one byte. It is packed or a name, except
that a single one with a point is passed on. A decimal number in a list can only be a name. -/
theorem declarationLine_literal (member : word ∈ declaration.operands) :
    (startsQuoted word = true → declaration.width ≠ .byte →
      (environment.declarationLine declaration = .ok line ↔
        declaration.Packs line ∨ declaration.Points line ∨
          environment.Lists declaration line) ∧
      (declaration.Packs line → declaration.width = .double ∧ declaration.operands = [word] ∧
        isPacked word = true) ∧
      (declaration.Points line → declaration.operands = [word] ∧ '.' ∈ word) ∧
      (environment.Lists declaration line →
        (declaration.width = .double ∨ declaration.Offsets word) ∧
          environment.Refers line word)) ∧
    (IsDecimal word → declaration.width.floatFormat?.isSome → 2 ≤ declaration.operands.length →
      (environment.declarationLine declaration = .ok line ↔
        environment.Lists declaration line) ∧
      (environment.Lists declaration line →
        declaration.Offsets word ∧ environment.Refers line word)) := by
  constructor
  · intro quoted sized
    have quote := mem_of_startsQuoted quoted
    obtain ⟨unread, _⟩ := number?_eq_none_of_mem quote (by decide)
    refine ⟨?_, ?_, ?_, ?_⟩
    · rw [declarationLine_eq_ok_iff]
      constructor
      · rintro (strings | ⟨rest, fills⟩ | others)
        · exact absurd strings.width_eq sized
        · rw [startsQuoted_of_isRepeat (fills.eq_pair_of_unread member unread).1] at quoted
          contradiction
        · exact others
      · exact fun others => .inr (.inr others)
    · exact fun packs => packs.eq_singleton member
    · exact fun points => points.eq_singleton member
    · intro lists
      obtain ⟨place, refers⟩ := lists.refers member quote (by decide)
      exact ⟨place.imp_left And.left, refers⟩
  · intro decimal wide several
    have numeric := startsNumeric_of_isDecimal decimal
    have point := mem_of_isDecimal decimal
    obtain ⟨unread, _⟩ := number?_eq_none_of_mem point (by decide)
    constructor
    · rw [declarationLine_eq_ok_iff]
      constructor
      · rintro (strings | ⟨rest, fills⟩ | packs | points | lists)
        · rw [strings.width_eq] at wide
          contradiction
        · rw [startsNumeric_of_isRepeat (fills.eq_pair_of_unread member unread).1] at numeric
          contradiction
        · rw [(packs.eq_singleton member).2.1] at several
          contradiction
        · rw [(points.eq_singleton member).1] at several
          contradiction
        · exact lists
      · exact fun lists => .inr (.inr (.inr (.inr lists)))
    · intro lists
      obtain ⟨place, refers⟩ := lists.refers member point (by decide)
      refine ⟨?_, refers⟩
      rcases place with ⟨_, letter⟩ | behind
      · rw [numeric] at letter
        contradiction
      · exact behind

theorem declarationLine_literal_alone :
    ("'DEAD'".toList ∈ ["'DEAD'".toList] ∧ startsQuoted "'DEAD'".toList = true ∧
      Width.double ≠ .byte ∧
      (Environment.mk .standard .empty ∅).declarationLine ⟨none, .double, ["'DEAD'".toList]⟩ =
        .ok ⟨none, .packed 0x44454144, ["'DEAD'".toList]⟩) ∧
    ("2.5".toList ∈ ["1".toList, "2.5".toList] ∧ IsDecimal "2.5".toList ∧
      Width.double.floatFormat?.isSome = true ∧
      ∀ line, (Environment.mk .standard .empty ∅).declarationLine
        ⟨none, .double, ["1".toList, "2.5".toList]⟩ ≠ .ok line) := by
  have member : "'DEAD'".toList ∈ (Declaration.mk none .double ["'DEAD'".toList]).operands := by
    decide
  have packs : (Declaration.mk none .double ["'DEAD'".toList]).Packs
      ⟨none, .packed 0x44454144, ["'DEAD'".toList]⟩ := .intro (by decide)
  have last : "2.5".toList ∈ (Declaration.mk none .double ["1".toList, "2.5".toList]).operands := by
    decide
  have decimal : IsDecimal "2.5".toList :=
    ⟨[], ['2'], ['5'], by decide, .inl rfl, by decide, by decide⟩
  refine ⟨⟨member, by decide, by decide, ?_⟩, last, decimal, by decide, ?_⟩
  · exact ((declarationLine_literal member).1 (by decide) (by decide)).1.2 (.inl packs)
  · intro line converted
    obtain ⟨lists, place⟩ := (declarationLine_literal last).2 decimal (by decide) (by decide)
    have behind := (place (lists.1 converted)).1
    exact absurd behind (by decide)

/-- Packed characters behind a number are written as a symbol. -/
theorem declarationLine_literal_symbol :
    ∃ line, (Environment.mk .standard .empty ∅).declarationLine
        ⟨none, .double, ["1".toList, "'ABCD'".toList]⟩ = .ok line ∧
      startsQuoted "'ABCD'".toList = true ∧
      line.statement.render Settings.standard.symbolPrefix = ".long 1, _'ABCD'".toList := by
  refine ⟨⟨none, .list .double [.number 1, .symbol "'ABCD'".toList], []⟩, ?_, ?_, ?_⟩
  · rfl
  · decide
  · decide

end Environment

end DataSegment
