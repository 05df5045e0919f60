import DataSegment.Proofs.Assembly.Layout
import DataSegment.Proofs.Conversion.References
import DataSegment.Proofs.Header.Fragment
import DataSegment.Proofs.Listing.Literal
import DataSegment.Proofs.Listing.Repeated

namespace DataSegment

open Assembly Listing

/-- An operand of a list as it is written in a declaration. -/
inductive SourceOperand where
  | number (word : Text)
  | unset
  | offset (name : Text)
  /-- A name alone, which only units of four bytes can hold. -/
  | bare (name : Text)

namespace SourceOperand

def words : SourceOperand → List Text
  | .number word => [word]
  | .unset => [['?']]
  | .offset name => ["offset".toList, name]
  | .bare name => [name]

/-- A number must be readable, and start like one where a name can stand. A name alone is an
identifier and has no meaning of its own. -/
def Fits (width : Width) : SourceOperand → Prop
  | .number word => (∃ value, number? word = some value) ∧
      (width = .double → startsNumeric word = true)
  | .unset | .offset _ => True
  | .bare name => width = .double ∧ Header.isIdentifier name = true ∧
      name ≠ "offset".toList ∧ name ≠ ['?']

/-- The name that an operand refers to. -/
def name? : SourceOperand → Option Text
  | .offset name | .bare name => some name
  | .number _ | .unset => none

/-- A number is kept modulo the size of its unit. A reference is the address of a symbol, unless it
is suppressed. -/
def value (environment : Environment) (width : Width) : SourceOperand → Value
  | .number word => .number (((number? word).getD 0).toNat % 2 ^ (8 * width.size))
  | .unset => .number 0
  | .offset name | .bare name =>
      if environment.suppresses name then .number 0
      else .address (environment.settings.symbolPrefix ++ name)

/-- A suppressed name is left to the comment. -/
def comments (environment : Environment) (operand : SourceOperand) : List Text :=
  operand.name?.toList.filter environment.suppresses

/-- The operand that the words are read as. -/
def operand : SourceOperand → Operand
  | .number word => .number word
  | .unset => .unset
  | .offset name | .bare name => .label name

end SourceOperand

/-- The operands of a declaration as they are written. -/
inductive SourceData where
  | list (operands : List SourceOperand)
  /-- A count before `dup`, in any case, and a value in parentheses, which may be left open. -/
  | repeated (count mark : Text) (value : Option Text)
  /-- Four characters between single quotes. -/
  | packed (first second third fourth : Char)

namespace SourceData

def words : SourceData → List Text
  | .list operands => operands.flatMap SourceOperand.words
  | .repeated count mark value => [count, mark ++ value.getD ['?'] ++ [')']]
  | .packed first second third fourth => [['\'', first, second, third, fourth, '\'']]

def Fits (width : Width) : SourceData → Prop
  | .list operands => ∀ operand ∈ operands, operand.Fits width
  | .repeated count mark value => (∃ number, number? count = some number) ∧
      Text.sameLetters mark ['d', 'u', 'p', '('] = true ∧
      ∀ word, value = some word → ∃ number, number? word = some number
  | .packed first second third fourth => width = .double ∧
      ∀ letter ∈ [first, second, third, fourth], letter ≠ '\'' ∧ letter.toNat < 256

/-- How often the value of a repeat is to be laid out. -/
def times (count : Text) : Nat := ((number? count).getD 0).toNat

/-- The value of a repeat, modulo the size of its unit. -/
def repeatedNumber (width : Width) (value : Option Text) : Nat :=
  ((value.bind number?).getD 0).toNat % 2 ^ (8 * width.size)

/-- The four characters in one number, the first one on top. -/
def packedNumber (first second third fourth : Char) : Nat :=
  ((first.toNat * 256 + second.toNat) * 256 + third.toNat) * 256 + fourth.toNat

/-- The directive that a declaration becomes. -/
def directive (environment : Environment) (width : Width) : SourceData → Directive
  | .list operands => .units width.size (operands.map (SourceOperand.value environment width))
  | .repeated count _ value => .fill (times count) width.size (repeatedNumber width value)
  | .packed first second third fourth => .units 4 [.number (packedNumber first second third fourth)]

/-- The data that a declaration asks for. -/
def layout (environment : Environment) (width : Width) : SourceData → Layout
  | .list operands => ⟨width.size, operands.map (SourceOperand.value environment width)⟩
  | .repeated count _ value =>
      ⟨width.size, List.replicate (times count) (.number (repeatedNumber width value))⟩
  | .packed first second third fourth => ⟨4, [.number (packedNumber first second third fourth)]⟩

/-- A fill lays out what is asked for if no unit needs more than four bytes and the count is not
taken for a negative one. -/
def Fills (width : Width) : SourceData → Prop
  | .repeated count _ value =>
      times count = 0 ∨ times count < 2 ^ 63 ∧ repeatedNumber width value < 2 ^ 32
  | .list _ | .packed _ _ _ _ => True

/-- The comment keeps suppressed names in order, or the packed characters. -/
def comments (environment : Environment) : SourceData → List Text
  | .list operands => operands.flatMap (SourceOperand.comments environment)
  | .repeated _ _ _ => []
  | .packed first second third fourth => [['\'', first, second, third, fourth, '\'']]

/-- A list converts when it is not empty and each of its names can be referenced. A name that is
empty or looks like a repeated value makes no reference. -/
def Referable (environment : Environment) : SourceData → Prop
  | .list operands => operands ≠ [] ∧ ∀ operand ∈ operands, ∀ name, operand.name? = some name →
      name ≠ [] ∧ isRepeat name = false ∧ ∃ reference, environment.reference name = .ok reference
  | .repeated _ _ _ | .packed _ _ _ _ => True

end SourceData

theorem toNat_truncate {width : Width} (integral : width ≠ .ten) (value : UInt64) :
    (width.truncate value).toNat = value.toNat % 2 ^ (8 * width.size) := by
  have bound := value.toNat_lt
  cases width with
  | ten => exact absurd rfl integral
  | byte => exact (UInt64.toNat_and ..).trans (Nat.and_two_pow_sub_one_eq_mod _ 8)
  | word => exact (UInt64.toNat_and ..).trans (Nat.and_two_pow_sub_one_eq_mod _ 16)
  | double => exact (UInt64.toNat_and ..).trans (Nat.and_two_pow_sub_one_eq_mod _ 32)
  | quad => exact (Nat.mod_eq_of_lt bound).symm

/-- A character of one byte is put below what was packed before it. -/
theorem toNat_pack {value : UInt32} {letter : Char} (room : value.toNat < 2 ^ 24)
    (small : letter.toNat < 256) :
    ((value <<< 8) ||| (letter.val &&& 0xff)).toNat = value.toNat * 256 + letter.toNat := by
  have kept : (letter.val &&& 0xff).toNat = letter.toNat := by
    rw [UInt32.toNat_and]
    exact (Nat.and_two_pow_sub_one_eq_mod _ 8).trans (Nat.mod_eq_of_lt small)
  have shifted : (value <<< 8).toNat = value.toNat <<< 8 := by
    rw [UInt32.toNat_shiftLeft]
    simp [Nat.shiftLeft_eq]
    omega
  rw [UInt32.toNat_or, kept, shifted, ← Nat.shiftLeft_add_eq_or_of_lt (by simpa using small),
    Nat.shiftLeft_eq]

theorem toNat_packedValue {first second third fourth : Char}
    (small : ∀ letter ∈ [first, second, third, fourth], letter.toNat < 256) :
    (packedValue ['\'', first, second, third, fourth, '\'']).toNat =
      ((first.toNat * 256 + second.toNat) * 256 + third.toNat) * 256 + fourth.toNat := by
  simp only [List.mem_cons, List.not_mem_nil, or_false, forall_eq_or_imp, forall_eq] at small
  obtain ⟨one, two, three, four⟩ := small
  have a := toNat_pack (show (0 : UInt32).toNat < 2 ^ 24 by decide) one
  have b := toNat_pack (by rw [a]; simp; omega) two
  have c := toNat_pack (by rw [b, a]; simp; omega) three
  have d := toNat_pack (by rw [c, b, a]; simp; omega) four
  rw [c, b, a] at d
  simpa [packedValue] using d

/-- No number is written with the mark of an unset unit. -/
theorem ne_unset_of_number? {word : Text} {value : UInt64} (read : number? word = some value) :
    word ≠ ['?'] := by
  intro equal
  exact not_mem_of_number? read (by decide) (equal ▸ List.mem_singleton_self '?')

namespace SourceOperand

/-- The first word of an operand tells it apart from strings, packed characters, numbers with a
point and repeated values. -/
theorem exists_words {width : Width} {operand : SourceOperand} (fits : operand.Fits width) :
    ∃ word others, operand.words = word :: others ∧ word ≠ [] ∧
      '\'' ∉ word ∧ '.' ∉ word ∧ '(' ∉ word := by
  cases operand with
  | number word =>
      obtain ⟨⟨value, read⟩, _⟩ := fits
      exact ⟨word, [], rfl, ne_nil_of_number? read, not_mem_of_number? read (by decide),
        not_mem_of_number? read (by decide), not_mem_of_number? read (by decide)⟩
  | unset => exact ⟨['?'], [], rfl, by decide, by decide, by decide, by decide⟩
  | offset name => exact ⟨"offset".toList, [name], rfl, by decide, by decide, by decide, by decide⟩
  | bare name =>
      obtain ⟨_, identifier, _, _⟩ := fits
      refine ⟨name, [], rfl, ?_, Header.not_mem_of_isIdentifier identifier (by decide),
        Header.not_mem_of_isIdentifier identifier (by decide),
        Header.not_mem_of_isIdentifier identifier (by decide)⟩
      exact Header.ne_nil_of_isIdentifier identifier

theorem number?_offset : number? "offset".toList = none := by decide

theorem ofWords_cons {width : Width} {word : Text} (other : word ≠ "offset".toList)
    (rest : List Text) :
    Operand.ofWords width (word :: rest) =
      Operand.ofWord width word :: Operand.ofWords width rest := by
  cases rest with
  | nil => rfl
  | cons next rest => rw [Operand.ofWords, if_neg other]

theorem ofWord_number {width : Width} {word : Text} {value : UInt64}
    (read : number? word = some value) (numeric : width = .double → startsNumeric word = true) :
    Operand.ofWord width word = .number word := by
  rw [Operand.ofWord, if_neg (ne_unset_of_number? read), if_neg]
  rintro ⟨double, names⟩
  rw [numeric double] at names
  contradiction

/-- A name neither starts with a digit nor with a minus sign. -/
theorem startsNumeric_of_isIdentifier {name : Text} (identifier : Header.isIdentifier name = true) :
    startsNumeric name = false := by
  have minus : '-' ∉ name := Header.not_mem_of_isIdentifier identifier (by decide)
  cases name with
  | nil => rfl
  | cons first rest =>
      simp only [Header.isIdentifier, Bool.and_eq_true, Bool.not_eq_true'] at identifier
      unfold startsNumeric
      split
      · rename_i digits same
        have : first = '-' := (List.cons.inj same).1
        exact absurd (this ▸ List.mem_cons_self ..) minus
      · simpa using identifier.1

/-- The words of a list are read as its operands, in order. -/
theorem ofWords_flatMap {width : Width} {operands : List SourceOperand}
    (fits : ∀ operand ∈ operands, operand.Fits width) :
    Operand.ofWords width (operands.flatMap words) = operands.map operand := by
  induction operands with
  | nil => rfl
  | cons first operands inductionHypothesis =>
      have rest := inductionHypothesis fun other member =>
        fits other (List.mem_cons_of_mem _ member)
      have known := fits first (List.mem_cons_self ..)
      rw [List.flatMap_cons, List.map_cons, ← rest]
      cases first with
      | number word =>
          obtain ⟨⟨value, read⟩, numeric⟩ := known
          have other : word ≠ "offset".toList := by
            intro equal
            subst equal
            rw [number?_offset] at read
            simp at read
          rw [words, List.singleton_append, ofWords_cons other, ofWord_number read numeric, operand]
      | unset =>
          rw [words, List.singleton_append, ofWords_cons (by decide)]
          rfl
      | offset name => rfl
      | bare name =>
          obtain ⟨double, identifier, other, set⟩ := known
          rw [words, List.singleton_append, ofWords_cons other, Operand.ofWord, if_neg set,
            if_pos ⟨double, startsNumeric_of_isIdentifier identifier⟩, operand]

theorem ofFirst_plain (width : Width) {first : Text} (quote : '\'' ∉ first) (point : '.' ∉ first)
    (others : List Text) :
    Form.ofFirst width first others = .ok (.list (Operand.ofWords width (first :: others))) := by
  have unpacked : ¬(width = .double ∧ isPacked first = true) := by
    simp [isPacked, startsQuoted_eq_false quote]
  have whole : first.contains '.' = false := by simpa using point
  rw [Form.ofFirst, if_neg unpacked, whole]
  cases width.floatFormat? <;> rfl

theorem flatMap_words_eq_nil {width : Width} {operands : List SourceOperand}
    (fits : ∀ operand ∈ operands, operand.Fits width) (empty : operands.flatMap words = []) :
    operands = [] := by
  cases operands with
  | nil => rfl
  | cons first operands =>
      obtain ⟨word, others, found, _⟩ := exists_words (fits first (List.mem_cons_self ..))
      simp [found] at empty

/-- Two words end in a repeated value only when they are a single reference to it. -/
theorem eq_offset_of_isRepeat {width : Width} {operands : List SourceOperand}
    (fits : ∀ operand ∈ operands, operand.Fits width) {first second : Text}
    (pair : operands.flatMap words = [first, second]) (repeated : isRepeat second = true) :
    operands = [.offset second] ∧ first = "offset".toList := by
  have paren := mem_of_isRepeat repeated
  obtain _ | ⟨operand, operands⟩ := operands
  · simp at pair
  have others : ∀ other ∈ operands, other.Fits width :=
    fun other member => fits other (List.mem_cons_of_mem _ member)
  have unpaired {word : Text} (alone : operand.words = [word]) : False := by
    rw [List.flatMap_cons, alone, List.singleton_append] at pair
    have tail := (List.cons.inj pair).2
    obtain _ | ⟨next, operands⟩ := operands
    · simp at tail
    obtain ⟨start, rest, found, _, _, _, free⟩ := exists_words (others next (List.mem_cons_self ..))
    rw [List.flatMap_cons, found, List.cons_append] at tail
    exact free ((List.cons.inj tail).1 ▸ paren)
  cases operand with
  | number word => exact (unpaired rfl).elim
  | unset => exact (unpaired rfl).elim
  | bare name => exact (unpaired rfl).elim
  | offset name =>
      rw [List.flatMap_cons, words, List.cons_append, List.singleton_append] at pair
      obtain ⟨start, tail⟩ := List.cons.inj pair
      obtain ⟨same, rest⟩ := List.cons.inj tail
      rw [flatMap_words_eq_nil others rest, same]
      exact ⟨rfl, start.symm⟩

/-- A list makes operands of its words. Only a single name that looks like a repeated value is
taken for one, and then its count is not a number. -/
theorem ofOperands_words {width : Width} {operands : List SourceOperand}
    (fits : ∀ operand ∈ operands, operand.Fits width) (filled : operands ≠ [])
    (named : [] ∉ operands.flatMap words) :
    Form.ofOperands width (operands.flatMap words) = .ok (.list (operands.map operand)) ∨
      ∃ name, operands = [.offset name] ∧ isRepeat name = true ∧
        Form.ofOperands width (operands.flatMap words) =
          .ok (.repeated "offset".toList name) := by
  have given : (operands.flatMap words).any List.isEmpty = false := by
    rw [List.any_eq_false]
    intro word member empty
    exact named (List.isEmpty_iff.1 empty ▸ member)
  have read := ofWords_flatMap fits
  have start : ∃ word others, operands.flatMap words = word :: others ∧
      '\'' ∉ word ∧ '.' ∉ word := by
    obtain ⟨first, operands, rfl⟩ := List.exists_cons_of_ne_nil filled
    obtain ⟨word, others, found, _, quote, point, _⟩ :=
      exists_words (fits first (List.mem_cons_self ..))
    exact ⟨word, others ++ operands.flatMap words, by rw [List.flatMap_cons, found]; rfl,
      quote, point⟩
  obtain ⟨word, others, parts, quote, point⟩ := start
  have unquoted : ¬(width = .byte ∧ startsQuoted word = true) := by
    simp [startsQuoted_eq_false quote]
  have list := ofFirst_plain width quote point others
  rw [← parts, read] at list
  rw [parts] at given ⊢
  unfold Form.ofOperands
  dsimp only
  rw [given, if_neg (by simp), if_neg unquoted]
  split
  · rename_i second
    split
    · rename_i repeated
      obtain ⟨same, start⟩ := eq_offset_of_isRepeat fits parts repeated
      exact .inr ⟨second, same, repeated, by rw [start]⟩
    · exact .inl list
  · exact .inl list

end SourceOperand

namespace SourceOperand

/-- A name becomes zero and a comment, or an address. -/
theorem denoted_reference {environment : Environment} {width : Width} {name : Text} {item : Item}
    {names : List Text} (converted : environment.item width (.label name) = .ok (item, names)) :
    Value.Denoted (item.render environment.settings.symbolPrefix)
        (if environment.suppresses name then .number 0
          else .address (environment.settings.symbolPrefix ++ name)) ∧
      names = [name].filter environment.suppresses := by
  cases Environment.item_eq_ok_iff.1 converted with
  | suppressed suppressed =>
      have listed := Environment.suppresses_iff.2 suppressed
      rw [if_pos listed]
      exact ⟨denoted_number _ 0, by simp [listed]⟩
  | external exported _ =>
      have free : ¬environment.suppresses name = true :=
        fun listed => exported (Environment.suppresses_iff.1 listed)
      rw [if_neg free]
      exact ⟨denoted_symbol _ name, by simp [free]⟩

/-- An item denotes the value of its operand and leaves the suppressed name to the comment. -/
theorem denoted_item {environment : Environment} {width : Width} (integral : width ≠ .ten)
    {operand : SourceOperand} {item : Item} {names : List Text}
    (converted : environment.item width operand.operand = .ok (item, names)) :
    Value.Denoted (item.render environment.settings.symbolPrefix)
        (operand.value environment width) ∧ names = operand.comments environment := by
  cases operand with
  | number word =>
      cases Environment.item_eq_ok_iff.1 converted with
      | @number _ value read =>
          refine ⟨?_, rfl⟩
          rw [SourceOperand.value, read, Option.getD_some, ← toNat_truncate integral]
          exact denoted_number _ _
  | unset =>
      obtain ⟨rfl, rfl⟩ := Prod.mk.inj (Except.ok.inj converted)
      exact ⟨denoted_number _ 0, rfl⟩
  | offset name => exact denoted_reference converted
  | bare name => exact denoted_reference converted

theorem ne_nil_of_mem_words {width : Width} {operand : SourceOperand} (fits : operand.Fits width)
    (named : operand.name? ≠ some []) {word : Text} (member : word ∈ operand.words) :
    word ≠ [] := by
  obtain ⟨first, others, found, filled, _⟩ := exists_words fits
  rw [found] at member
  rcases List.mem_cons.1 member with rfl | member
  · exact filled
  · cases operand with
    | offset name =>
        obtain ⟨_, rfl⟩ := List.cons.inj found
        intro equal
        subst equal
        exact named (congrArg some (List.mem_singleton.1 member).symm)
    | number | unset | bare =>
        obtain ⟨_, rfl⟩ := List.cons.inj found
        simp at member

theorem item_of_referable {environment : Environment} {width : Width} {operand : SourceOperand}
    (fits : operand.Fits width)
    (referable : ∀ name, operand.name? = some name →
      ∃ reference, environment.reference name = .ok reference) :
    ∃ found, environment.item width operand.operand = .ok found := by
  cases operand with
  | number word =>
      obtain ⟨⟨value, read⟩, _⟩ := fits
      exact ⟨(.number (width.truncate value), []), by
        simp [Environment.item, SourceOperand.operand, readNumber, read, Except.map]⟩
  | unset => exact ⟨_, rfl⟩
  | offset name | bare name =>
      obtain ⟨reference, allowed⟩ := referable name rfl
      exact ⟨Reference.item name reference, by
        simp [Environment.item, SourceOperand.operand, allowed, Except.map]⟩

end SourceOperand

namespace SourceData

variable {environment : Environment} {width : Width}

/-- The items of a list denote the values of its operands, in order. -/
theorem denoted_items (integral : width ≠ .ten) {operands : List SourceOperand}
    {items : List (Item × List Text)}
    (each : List.Forall₂ (fun operand found =>
      environment.item width (SourceOperand.operand operand) = .ok found) operands items) :
    List.Forall₂ (fun item value => Value.Denoted (item.render environment.settings.symbolPrefix)
        value) (items.map Prod.fst) (operands.map (SourceOperand.value environment width)) ∧
      items.flatMap Prod.snd = operands.flatMap (SourceOperand.comments environment) := by
  induction each with
  | nil => exact ⟨.nil, rfl⟩
  | cons first _ inductionHypothesis =>
      obtain ⟨denoted, names⟩ := SourceOperand.denoted_item integral first
      obtain ⟨others, rest⟩ := inductionHypothesis
      rw [List.flatMap_cons, List.flatMap_cons, rest, names]
      exact ⟨.cons denoted others, rfl⟩

/-- A statement is the directive of its declaration and leaves the right names to the comment. -/
def Kept (environment : Environment) (width : Width) (source : SourceData)
    (converted : Statement × List Text) : Prop :=
  Directive.Denoted (converted.1.render environment.settings.symbolPrefix)
      (source.directive environment width) ∧
    converted.2 = source.comments environment

theorem kept_list (integral : width ≠ .ten) {operands : List SourceOperand}
    (filled : operands ≠ []) {converted : Statement × List Text}
    (found : environment.statement width (.list (operands.map SourceOperand.operand)) =
      .ok converted) :
    Kept environment width (.list operands) converted := by
  obtain ⟨items, each, rfl⟩ := Results.map_eq_ok_iff.1 found
  have each := List.forall₂_map_left_iff.1 (Results.mapM_eq_ok_iff.1 each)
  obtain ⟨denoted, names⟩ := denoted_items integral each
  have some : items.map Prod.fst ≠ [] := by
    intro empty
    have lengths := denoted.length_eq
    rw [empty, List.length_map] at lengths
    exact filled (List.length_eq_zero_iff.1 lengths.symm)
  exact ⟨Assembly.denoted_list integral _ some denoted, names⟩

/-- The value of a repeat stands between the parentheses. -/
theorem repeatedValue_append (width : Width) {mark inner : Text} (length : mark.length = 4)
    (solid : ')' ∉ inner) (rest : Text) :
    repeatedValue width (mark ++ inner ++ ')' :: rest) =
      if inner = ['?'] then .ok 0 else (readNumber inner).map width.truncate := by
  have all : ∀ letter ∈ inner, (letter != ')') = true := by
    intro letter member
    rw [bne_iff_ne]
    intro equal
    subst equal
    exact solid member
  have taken : ((mark ++ inner ++ ')' :: rest).drop 4).takeWhile (· != ')') = inner := by
    rw [List.append_assoc, ← length, List.drop_left, List.takeWhile_append_of_pos all]
    simp
  rw [repeatedValue, if_pos (by simp), taken]

theorem repeatedValue_words (width : Width) {mark : Text} (length : mark.length = 4)
    {value : Option Text}
    (readable : ∀ word, value = some word → ∃ number, number? word = some number) :
    repeatedValue width (mark ++ value.getD ['?'] ++ [')']) =
      .ok (width.truncate ((value.bind number?).getD 0)) := by
  cases value with
  | none =>
      have zero : width.truncate 0 = 0 := by cases width <;> rfl
      rw [Option.getD_none, repeatedValue_append width length (by decide), if_pos rfl,
        Option.bind_none, Option.getD_none, zero]
  | some word =>
      obtain ⟨number, read⟩ := readable word rfl
      rw [Option.getD_some, repeatedValue_append width length (not_mem_of_number? read (by decide)),
        if_neg (ne_unset_of_number? read), readNumber, read, Option.bind_some, read]
      rfl

theorem ofOperands_repeated {count mark : Text} {value : Option Text}
    (fits : (SourceData.repeated count mark value).Fits width) :
    Form.ofOperands width (SourceData.repeated count mark value).words =
      .ok (.repeated count (mark ++ value.getD ['?'] ++ [')'])) := by
  obtain ⟨⟨number, counted⟩, marked, _⟩ := fits
  have length : mark.length = 4 := Text.length_of_sameLetters marked
  have quote : '\'' ∉ count := not_mem_of_number? counted (by decide)
  have unquoted : ¬(width = .byte ∧ startsQuoted count = true) := by
    simp [startsQuoted_eq_false quote]
  have repeats : isRepeat (mark ++ value.getD ['?'] ++ [')']) = true := by
    rw [isRepeat, List.append_assoc, ← length, List.take_left]
    exact marked
  have given : [count, mark ++ value.getD ['?'] ++ [')']].any List.isEmpty = false := by
    simp [ne_nil_of_number? counted]
  rw [words, Form.ofOperands, given, if_neg (by simp), if_neg unquoted,
    if_pos repeats]

theorem kept_repeated (integral : width ≠ .ten) {count mark : Text} {value : Option Text}
    (fits : (SourceData.repeated count mark value).Fits width) :
    ∃ converted, environment.statement width
        (.repeated count (mark ++ value.getD ['?'] ++ [')'])) = .ok converted ∧
      Kept environment width (.repeated count mark value) converted := by
  obtain ⟨⟨number, counted⟩, marked, readable⟩ := fits
  have read := repeatedValue_words width (Text.length_of_sameLetters marked) readable
  refine ⟨(.fill number width (width.truncate ((value.bind number?).getD 0)), []), ?_, ?_, rfl⟩
  · rw [Environment.statement, fillStatement, readNumber, counted, read]
    rfl
  · rw [directive, times, counted, Option.getD_some, repeatedNumber, ← toNat_truncate integral]
    exact denoted_fill ..

theorem ofOperands_packed {first second third fourth : Char}
    (fits : (SourceData.packed first second third fourth).Fits width) :
    Form.ofOperands width (SourceData.packed first second third fourth).words =
      .ok (.packed ['\'', first, second, third, fourth, '\'']) := by
  obtain ⟨rfl, _⟩ := fits
  rfl

theorem kept_packed {first second third fourth : Char}
    (fits : (SourceData.packed first second third fourth).Fits width) :
    Kept environment width (.packed first second third fourth)
      (.packed (packedValue ['\'', first, second, third, fourth, '\'']),
        [['\'', first, second, third, fourth, '\'']]) := by
  obtain ⟨_, letters⟩ := fits
  refine ⟨?_, rfl⟩
  rw [directive, packedNumber, ← toNat_packedValue fun letter member => (letters letter member).2]
  exact Assembly.denoted_packed ..

theorem ofOperands_eq_ok {operands : List Text} {form : Form}
    (found : Form.ofOperands width operands = .ok form) : operands ≠ [] ∧ [] ∉ operands := by
  unfold Form.ofOperands at found
  split at found
  · simp at found
  · split at found
    · simp at found
    · rename_i given
      refine ⟨by simp, fun empty => given ?_⟩
      exact List.any_eq_true.2 ⟨[], empty, rfl⟩

/-- A declaration that converts keeps what it asks for. -/
theorem kept_of_converts (integral : width ≠ .ten) {source : SourceData} (fits : source.Fits width)
    {form : Form} (formed : Form.ofOperands width source.words = .ok form)
    {converted : Statement × List Text}
    (found : environment.statement width form = .ok converted) :
    Kept environment width source converted := by
  cases source with
  | list operands =>
      obtain ⟨some, named⟩ := ofOperands_eq_ok formed
      have filled : operands ≠ [] := by
        intro equal
        subst equal
        exact some rfl
      rcases SourceOperand.ofOperands_words fits filled named with list | ⟨name, _, _, repeated⟩
      · obtain rfl := Except.ok.inj (formed.symm.trans list)
        exact kept_list integral filled found
      · obtain rfl := Except.ok.inj (formed.symm.trans repeated)
        rw [Environment.statement, fillStatement, readNumber, SourceOperand.number?_offset] at found
        simp [Except.map, bind, Except.bind] at found
  | repeated count mark value =>
      obtain rfl := Except.ok.inj (formed.symm.trans (ofOperands_repeated fits))
      obtain ⟨kept, same, proof⟩ := kept_repeated integral fits
      obtain rfl := Except.ok.inj (same.symm.trans found)
      exact proof
  | packed first second third fourth =>
      obtain rfl := Except.ok.inj (formed.symm.trans (ofOperands_packed fits))
      obtain rfl := Except.ok.inj found
      exact kept_packed fits

/-- A declaration converts when its names can be referenced. -/
theorem converts_of_referable (integral : width ≠ .ten) {source : SourceData}
    (fits : source.Fits width) (referable : source.Referable environment) :
    ∃ form converted, Form.ofOperands width source.words = .ok form ∧
      environment.statement width form = .ok converted := by
  cases source with
  | list operands =>
      obtain ⟨filled, names⟩ := referable
      have named : [] ∉ operands.flatMap SourceOperand.words := by
        intro member
        obtain ⟨operand, listed, member⟩ := List.mem_flatMap.1 member
        refine SourceOperand.ne_nil_of_mem_words (fits operand listed) ?_ member rfl
        intro empty
        exact (names operand listed [] empty).1 rfl
      have each : ∀ operand ∈ operands.map SourceOperand.operand,
          ∃ found, environment.item width operand = .ok found := by
        intro operand member
        obtain ⟨source, listed, rfl⟩ := List.mem_map.1 member
        exact SourceOperand.item_of_referable (fits source listed)
          fun name found => (names source listed name found).2.2
      obtain ⟨items, converted⟩ := Results.exists_mapM each
      rcases SourceOperand.ofOperands_words fits filled named with list | ⟨name, alone, repeats, _⟩
      · exact ⟨_, _, list, by rw [Environment.statement, converted]; rfl⟩
      · have free := (names (.offset name) (alone ▸ List.mem_singleton_self _) name rfl).2.1
        rw [repeats] at free
        contradiction
  | repeated count mark value =>
      obtain ⟨converted, found, _⟩ := kept_repeated integral fits
      exact ⟨_, converted, ofOperands_repeated fits, found⟩
  | packed first second third fourth =>
      exact ⟨_, _, ofOperands_packed fits, rfl⟩

/-- A number that was cut to the size of a unit fits it. -/
theorem fit_value (operand : SourceOperand) :
    (operand.value environment width).fit width.size = operand.value environment width := by
  cases operand with
  | number word => rw [SourceOperand.value, Value.fit, Nat.mod_mod]
  | unset => rw [SourceOperand.value, Value.fit, Nat.zero_mod]
  | offset name | bare name =>
      rw [SourceOperand.value]
      split
      · rw [Value.fit, Nat.zero_mod]
      · rfl

theorem packedNumber_lt {first second third fourth : Char}
    (small : ∀ letter ∈ [first, second, third, fourth], letter.toNat < 256) :
    packedNumber first second third fourth < 2 ^ 32 := by
  simp only [List.mem_cons, List.not_mem_nil, or_false, forall_eq_or_imp, forall_eq] at small
  obtain ⟨one, two, three, four⟩ := small
  rw [packedNumber]
  omega

/-- A unit of a fill keeps a repeated value that four bytes can hold. -/
theorem repeatedNumber_mod_iff (integral : width ≠ .ten) (value : Option Text) :
    repeatedNumber width value % 2 ^ (8 * min width.size 4) = repeatedNumber width value ↔
      repeatedNumber width value < 2 ^ 32 := by
  rw [Nat.mod_eq_iff_lt (Nat.two_pow_pos _).ne']
  have bound : repeatedNumber width value < 2 ^ (8 * width.size) :=
    Nat.mod_lt _ (Nat.two_pow_pos _)
  cases width with
  | ten => exact absurd rfl integral
  | quad => exact Iff.rfl
  | byte | word | double => exact iff_of_true bound (Nat.lt_of_lt_of_le bound (by decide))

/-- The directive of a repeat is the only one that can lay out other data than was asked for. -/
theorem layout_directive_iff (integral : width ≠ .ten) {source : SourceData}
    (fits : source.Fits width) :
    (source.directive environment width).layout = source.layout environment width ↔
      source.Fills width := by
  cases source with
  | list operands =>
      rw [directive, layout, Directive.layout, List.map_map]
      have fitted : Value.fit width.size ∘ SourceOperand.value environment width =
          SourceOperand.value environment width := funext fit_value
      rw [fitted]
      exact iff_of_true rfl trivial
  | packed first second third fourth =>
      have small := packedNumber_lt fun letter member => (fits.2 letter member).2
      rw [directive, layout, Directive.layout, List.map_singleton, Value.fit, Nat.mod_eq_of_lt small]
      exact iff_of_true rfl trivial
  | repeated count mark value =>
      have size : min width.size 8 = width.size := by
        cases width with
        | ten => exact absurd rfl integral
        | byte | word | double | quad => rfl
      rw [directive, layout, Directive.layout, Value.fit, size, Layout.mk.injEq, eq_self,
        true_and, List.replicate_inj, Value.number.injEq, repeatedNumber_mod_iff integral, Fills]
      split
      · rename_i positive
        simp only [positive, true_and]
      · rename_i negative
        omega

end SourceData

/-- Numbers, references, repeated values and packed characters become directives with the same
values in the same order, and the comment of the line keeps what the statement leaves out. An
assembler lays out the data that was asked for, unless it is a fill with larger values than four
bytes hold or with a count that it takes for a negative one. -/
theorem Environment.declarationLine_layout (environment : Environment) {width : Width}
    (integral : width ≠ .ten) (label : Option Text) {source : SourceData}
    (fits : source.Fits width) :
    (∀ line, environment.declarationLine ⟨label, width, source.words⟩ = .ok line →
      line.label = label ∧ line.comments = source.comments environment ∧
      Directive.Denoted (line.statement.render environment.settings.symbolPrefix)
        (source.directive environment width) ∧
      ((∀ symbol ∈ (source.directive environment width).symbols, IsSymbol symbol) →
        Directive.ofText? (line.statement.render environment.settings.symbolPrefix) =
          some (source.directive environment width)) ∧
      ((source.directive environment width).layout = source.layout environment width ↔
        source.Fills width)) ∧
    (source.Referable environment →
      ∃ line, environment.declarationLine ⟨label, width, source.words⟩ = .ok line) := by
  constructor
  · intro line converted
    unfold Environment.declarationLine at converted
    split at converted
    · simp at converted
    · rename_i form formed
      obtain ⟨kept, found, rfl⟩ := Results.map_eq_ok_iff.1 converted
      obtain ⟨denoted, names⟩ := SourceData.kept_of_converts integral fits formed found
      exact ⟨rfl, names, denoted, ofText?_of_denoted denoted,
        SourceData.layout_directive_iff integral fits⟩
  · intro referable
    obtain ⟨form, converted, formed, found⟩ :=
      SourceData.converts_of_referable integral fits referable
    refine ⟨⟨label, converted.1, converted.2⟩, ?_⟩
    rw [Environment.declarationLine, formed]
    dsimp only
    rw [found, Except.map]

/-- A number that wraps, a suppressed name, an unset unit and two addresses. -/
theorem Environment.declarationLine_layout_mixed :
    ∃ line, Environment.declarationLine ⟨.standard, .empty, ∅⟩
        ⟨some "table".toList, .double, ["-1".toList, "offset".toList, "loc_1".toList, ['?'],
          "offset".toList, "wine".toList, "cheese".toList]⟩ = .ok line ∧
      line.comments = ["loc_1".toList] ∧
      (Directive.ofText? (line.statement.render ['_'])).map Directive.layout =
        some ⟨4, [.number 4294967295, .number 0, .number 0, .address "_wine".toList,
          .address "_cheese".toList]⟩ := by
  have fits : (SourceData.list [.number "-1".toList, .offset "loc_1".toList, .unset,
      .offset "wine".toList, .bare "cheese".toList]).Fits .double := by
    simp only [SourceData.Fits, List.forall_mem_cons, SourceOperand.Fits, true_and]
    exact ⟨⟨⟨_, rfl⟩, fun _ => by decide⟩, ⟨by decide, by decide, by decide⟩, by simp⟩
  obtain ⟨kept, _⟩ := Environment.declarationLine_layout ⟨.standard, .empty, ∅⟩
    (by decide) (some "table".toList) fits
  let line : Line := ⟨some "table".toList, .list .double [.number 4294967295, .number 0,
    .number 0, .symbol "wine".toList, .symbol "cheese".toList], ["loc_1".toList]⟩
  obtain ⟨_, comments, _, read, laid⟩ := kept line rfl
  have directive := read fun symbol listed => by
    have named : symbol ∈ ["_wine".toList, "_cheese".toList] := listed
    simp only [List.mem_cons, List.not_mem_nil, or_false] at named
    rcases named with rfl | rfl <;> exact ⟨by decide, by simp, by decide⟩
  refine ⟨line, rfl, comments, ?_⟩
  exact (congrArg (Option.map Directive.layout) directive).trans (congrArg some (laid.2 trivial))

/-- Two units of eight bytes are to hold minus one, and the high half of both is lost. -/
theorem Environment.declarationLine_layout_halved :
    let environment : Environment := ⟨.standard, .empty, ∅⟩
    let source := SourceData.repeated ['2'] "dup(".toList (some "-1".toList)
    ∃ line, environment.declarationLine ⟨some ['x'], .quad, source.words⟩ = .ok line ∧
      line.statement.render ['_'] = ".fill 0x02,8,0xffffffffffffffff".toList ∧
      source.layout environment .quad =
        ⟨8, [.number 0xffffffffffffffff, .number 0xffffffffffffffff]⟩ ∧
      (Directive.ofText? (line.statement.render ['_'])).map Directive.layout =
        some ⟨8, [.number 0xffffffff, .number 0xffffffff]⟩ := by
  refine ⟨⟨some ['x'], .fill 2 .quad 0xffffffffffffffff, []⟩, rfl, by decide, by decide, ?_⟩
  decide +kernel

end DataSegment
