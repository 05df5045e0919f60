import DataSegment.Assembly.Statement
import DataSegment.Proofs.Results
import DataSegment.Proofs.Text.Numeral
import DataSegment.Proofs.Text.Parts

namespace DataSegment.Assembly

open Text

/-- A unit of storage holds a number or the address of a symbol. -/
inductive Value where
  | number (value : Nat)
  | address (symbol : Text)
  deriving DecidableEq, Repr

/-- What a data directive says. -/
inductive Directive where
  | units (size : Nat) (values : List Value)
  | fill (count size value : Nat)
  deriving DecidableEq, Repr

/-- Units of one size in a row. -/
structure Layout where
  size : Nat
  values : List Value
  deriving DecidableEq, Repr

/-- A unit keeps the low bytes of a number. The address of a symbol is left to the linker. -/
def Value.fit (size : Nat) : Value → Value
  | .number value => .number (value % 2 ^ (8 * size))
  | .address symbol => .address symbol

/-- What an assembler lays out. A unit of a fill has eight bytes at most, and the high four of eight
are zero whatever the value. A count is read as a signed number of 64 bits, and a negative one fills
nothing. -/
def Directive.layout : Directive → Layout
  | .units size values => ⟨size, values.map (Value.fit size)⟩
  | .fill count size value =>
      ⟨min size 8,
        List.replicate (if count < 2 ^ 63 then count else 0)
          (Value.fit (min size 4) (.number value))⟩

/-- The start of an integer tells its base. -/
def integer? : Text → Option Nat
  | '0' :: mark :: digits =>
      if mark = 'x' ∨ mark = 'X' then natural? 16 digits
      else if mark = 'b' ∨ mark = 'B' then natural? 2 digits
      else natural? 8 (mark :: digits)
  | digits => natural? 10 digits

/-- A field is a way to write a value: an integer with the value, or the symbol itself. -/
def Value.Denoted (field : Text) : Value → Prop
  | .number value => integer? field = some value
  | .address symbol => field = symbol

/-- A text is a way to write a directive. -/
inductive Directive.Denoted : Text → Directive → Prop
  | units (width : Width) (integral : width ≠ .ten) (fields : List Text) (values : List Value)
      (filled : fields ≠ []) (each : List.Forall₂ Value.Denoted fields values) :
      Denoted (unitMnemonic width ++ ' ' :: join [',', ' '] fields) (.units width.size values)
  | fill (count size value : Text) (counted sized valued : Nat)
      (isCount : integer? count = some counted) (isSize : integer? size = some sized)
      (isValue : integer? value = some valued) :
      Denoted (".fill ".toList ++ count ++ [','] ++ size ++ [','] ++ value)
        (.fill counted sized valued)

theorem integer?_hexadecimal (width value : Nat) :
    integer? (hexadecimal width value) = some value := by
  rw [hexadecimal, integer?, if_pos (Or.inl rfl), natural?_paddedNumeral (by omega) (by omega)]

/-- A digit that stands alone is decimal, also when it is zero. -/
theorem integer?_decimal {value : Nat} (small : value < 10) :
    integer? (decimal value) = some value := by
  have each : ∀ value : Fin 10, integer? (decimal value.val) = some value.val := by decide
  exact each ⟨value, small⟩

theorem denoted_number (symbolPrefix : Text) (value : UInt64) :
    Value.Denoted ((Item.number value).render symbolPrefix) (.number value.toNat) := by
  rw [Value.Denoted, Item.render]
  split
  · rename_i small
    exact integer?_decimal (by simpa using UInt64.lt_iff_toNat_lt.1 small)
  · exact integer?_hexadecimal 1 value.toNat

theorem denoted_symbol (symbolPrefix name : Text) :
    Value.Denoted ((Item.symbol name).render symbolPrefix) (.address (symbolPrefix ++ name)) := rfl

theorem denoted_list {width : Width} (integral : width ≠ .ten) (symbolPrefix : Text)
    {items : List Item} {values : List Value} (filled : items ≠ [])
    (each : List.Forall₂ (fun item value => Value.Denoted (item.render symbolPrefix) value)
      items values) :
    Directive.Denoted ((Statement.list width items).render symbolPrefix)
      (.units width.size values) := by
  rw [Statement.render_list, List.append_assoc, List.singleton_append]
  exact .units width integral _ _ (by simpa using filled) (List.forall₂_map_left_iff.2 each)

theorem denoted_fill (symbolPrefix : Text) (count : UInt64) (width : Width) (value : UInt64) :
    Directive.Denoted ((Statement.fill count width value).render symbolPrefix)
      (.fill count.toNat width.size value.toNat) := by
  rw [Statement.render_fill]
  have size : integer? (decimal width.size) = some width.size := by cases width <;> decide
  exact .fill _ _ _ _ _ _ (integer?_hexadecimal 2 _) size (integer?_hexadecimal 2 _)

theorem denoted_packed (symbolPrefix : Text) (value : UInt32) :
    Directive.Denoted ((Statement.packed value).render symbolPrefix)
      (.units 4 [.number value.toNat]) := by
  rw [Statement.render_packed]
  have field : join [',', ' '] [hexadecimal 1 value.toNat] = hexadecimal 1 value.toNat := by
    simp [join]
  have written := Directive.Denoted.units .double (by decide) [hexadecimal 1 value.toNat]
    [.number value.toNat] (by simp) (.cons (integer?_hexadecimal 1 value.toNat) .nil)
  rw [field] at written
  exact written

/-- A symbol is a text without commas and white space that does not start like a number. -/
def IsSymbol (text : Text) : Prop :=
  text ≠ [] ∧ (∀ letter, text.head? = some letter → letter.isDigit = false) ∧
    ∀ letter ∈ text, (letter == ',') = false ∧ isWhite letter = false

/-- A field that starts with a digit is an integer, any other a symbol. -/
def Value.ofField? (field : Text) : Option Value :=
  if field.head?.any Char.isDigit then (integer? field).map .number
  else if field.isEmpty then none
  else some (.address field)

/-- The size of the units that a directive lays out. -/
def unitSize? (mnemonic : Text) : Option Nat :=
  ([Width.byte, .word, .double, .quad].find? fun width => unitMnemonic width == mnemonic).map
    Width.size

/-- Reads the mnemonic up to the first space and the fields between the commas. -/
def Directive.ofText? (text : Text) : Option Directive :=
  match breakOn? [' '] text with
  | none => none
  | some (mnemonic, operands) =>
      let fields := (operands.splitOnP (· == ',')).map trim
      if mnemonic = ".fill".toList then
        match fields.mapM integer? with
        | some [count, size, value] => some (.fill count size value)
        | _ => none
      else
        match unitSize? mnemonic with
        | some size => (fields.mapM Value.ofField?).map (.units size)
        | none => none

/-- The symbols whose addresses a directive lays out. -/
def Directive.symbols : Directive → List Text
  | .units _ values => values.filterMap fun value =>
      match value with
      | .address symbol => some symbol
      | .number _ => none
  | .fill _ _ _ => []

theorem not_white_of_digit {base : Nat} {letter : Char} (digit : (digitValue? base letter).isSome) :
    (letter == ',') = false ∧ isWhite letter = false := by
  have absent : ∀ other ∈ ',' :: whiteSpace, hexValue? other = none := by decide
  have known : hexValue? letter ≠ none := by
    intro none
    simp [digitValue?, none] at digit
  constructor
  · rw [beq_eq_false_iff_ne]
    intro equal
    subst equal
    exact known (absent ',' (List.mem_cons_self ..))
  · rw [isWhite, List.contains_eq_mem, decide_eq_false_iff_not]
    exact fun member => known (absent letter (List.mem_cons_of_mem _ member))

theorem isDigit_of_digitValue? {letter : Char} (digit : (digitValue? 10 letter).isSome) :
    letter.isDigit := by
  obtain ⟨value, found⟩ := Option.isSome_iff_exists.1 digit
  rw [digitValue?, Option.filter_eq_some_iff] at found
  have small : value < 10 := by simpa using found.2
  have read := found.1
  unfold hexValue? at read
  split at read
  · rename_i within
    simpa [Char.isDigit, Char.le_def] using within
  · split at read
    · simp only [Option.some.injEq] at read
      omega
    · split at read
      · simp only [Option.some.injEq] at read
        omega
      · simp at read

/-- An integer holds no commas and no white space. -/
theorem solid_of_integer? {field : Text} {value : Nat} (read : integer? field = some value) :
    ∀ letter ∈ field, (letter == ',') = false ∧ isWhite letter = false := by
  have solid {base : Nat} {digits : Text} (read : natural? base digits = some value) :
      ∀ letter ∈ digits, (letter == ',') = false ∧ isWhite letter = false :=
    fun letter member => not_white_of_digit (isSome_digitValue?_of_natural? read letter member)
  unfold integer? at read
  split at read
  · rename_i mark digits
    intro letter member
    rcases List.mem_cons.1 member with rfl | member
    · decide
    · split at read
      · rename_i marked
        rcases List.mem_cons.1 member with rfl | member
        · rcases marked with rfl | rfl <;> decide
        · exact solid read letter member
      · split at read
        · rename_i marked
          rcases List.mem_cons.1 member with rfl | member
          · rcases marked with rfl | rfl <;> decide
          · exact solid read letter member
        · exact solid read letter member
  · exact solid read

/-- An integer starts with a digit, so that it is never taken for a symbol. -/
theorem ofField?_of_integer? {field : Text} {value : Nat} (read : integer? field = some value) :
    Value.ofField? field = some (.number value) := by
  have starts : field.head?.any Char.isDigit = true := by
    unfold integer? at read
    split at read
    · rfl
    · have digits := isSome_digitValue?_of_natural? read
      cases field with
      | nil => simp [natural?] at read
      | cons first rest => exact isDigit_of_digitValue? (digits first (List.mem_cons_self ..))
  rw [Value.ofField?, if_pos starts, read, Option.map_some]

theorem ofField?_of_isSymbol {field : Text} (symbol : IsSymbol field) :
    Value.ofField? field = some (.address field) := by
  obtain ⟨first, rest, rfl⟩ := List.exists_cons_of_ne_nil symbol.1
  have letter := symbol.2.1 first rfl
  simp [Value.ofField?, letter]

/-- A field is read as the value that it denotes. -/
theorem ofField?_of_denoted {field : Text} {value : Value} (denoted : value.Denoted field)
    (symbol : ∀ name, value = .address name → IsSymbol name) :
    (∀ letter ∈ field, (letter == ',') = false ∧ isWhite letter = false) ∧
      Value.ofField? field = some value := by
  cases value with
  | number value => exact ⟨solid_of_integer? denoted, ofField?_of_integer? denoted⟩
  | address name =>
      have same : field = name := denoted
      subst same
      exact ⟨(symbol field rfl).2.2, ofField?_of_isSymbol (symbol field rfl)⟩

theorem breakOn?_unitMnemonic (width : Width) (operands : Text) :
    breakOn? [' '] (unitMnemonic width ++ ' ' :: operands) =
      some (unitMnemonic width, operands) := by
  cases width <;> rfl

theorem unitSize?_unitMnemonic {width : Width} (integral : width ≠ .ten) :
    unitSize? (unitMnemonic width) = some width.size ∧ unitMnemonic width ≠ ".fill".toList := by
  cases width with
  | ten => exact absurd rfl integral
  | byte | word | double | quad => decide

/-- A text is read as the directive that it denotes, provided that its symbols are symbols. -/
theorem ofText?_of_denoted {text : Text} {directive : Directive}
    (denoted : Directive.Denoted text directive)
    (symbols : ∀ name ∈ directive.symbols, IsSymbol name) :
    Directive.ofText? text = some directive := by
  cases denoted with
  | units width integral fields values filled each =>
      have isSymbol : ∀ value ∈ values, ∀ name, value = .address name → IsSymbol name := by
        rintro value member name rfl
        exact symbols name (List.mem_filterMap.2 ⟨_, member, rfl⟩)
      have read : List.Forall₂ (fun field value =>
          (∀ letter ∈ field, (letter == ',') = false ∧ isWhite letter = false) ∧
            Value.ofField? field = some value) fields values := by
        clear filled symbols
        induction each with
        | nil => exact .nil
        | cons first _ inductionHypothesis =>
            exact .cons (ofField?_of_denoted first (isSymbol _ (List.mem_cons_self ..)))
              (inductionHypothesis fun value member =>
                isSymbol value (List.mem_cons_of_mem _ member))
      obtain ⟨solid, each⟩ := (List.forall₂_and_left _ _).1 read
      have parts := splitOnP_join filled solid
      have known : fields.mapM Value.ofField? = some values :=
        Results.mapM_eq_some_of_forall₂ each
      have size := unitSize?_unitMnemonic integral
      rw [Directive.ofText?, breakOn?_unitMnemonic]
      simp only [if_neg size.2, parts, size.1, known, Option.map_some]
  | fill count size value counted sized valued isCount isSize isValue =>
      have solid (field : Text) (number : Nat) (read : integer? field = some number) :
          field.splitOnP (· == ',') = [field] ∧ trim field = field :=
        ⟨List.splitOnP_eq_singleton fun letter member => (solid_of_integer? read letter member).1,
          trim_of_solid fun letter member => (solid_of_integer? read letter member).2⟩
      have broken : breakOn? [' '] (".fill ".toList ++ count ++ [','] ++ size ++ [','] ++ value) =
          some (".fill".toList, count ++ ',' :: (size ++ ',' :: value)) := by
        simp only [List.append_assoc, List.singleton_append]
        rfl
      have fields : ((count ++ ',' :: (size ++ ',' :: value)).splitOnP (· == ',')).map trim =
          [count, size, value] := by
        rw [List.splitOnP_append_cons _ _ (by decide), List.splitOnP_append_cons _ _ (by decide),
          (solid count _ isCount).1, (solid size _ isSize).1, (solid value _ isValue).1]
        simp [(solid count _ isCount).2, (solid size _ isSize).2, (solid value _ isValue).2]
      rw [Directive.ofText?, broken]
      simp only [if_true, fields]
      simp [isCount, isSize, isValue]

end DataSegment.Assembly
