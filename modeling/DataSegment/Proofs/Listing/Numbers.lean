import DataSegment.Proofs.Conversion.Values
import Mathlib.Data.Nat.Digits.Defs

namespace DataSegment.Listing

open Text

/-- The digits of a base are the first of these letters. -/
def digitLetters : Text := "0123456789abcdef".toList

/-- The value of a digit is its place among the letters. The case of a letter does not count. -/
def digitValue (letter : Char) : Nat := digitLetters.idxOf letter.toLower

/-- Digits in positional notation. The last one counts for itself. -/
def placeValue (base : Nat) (digits : Text) : Nat :=
  Nat.ofDigits base (digits.reverse.map digitValue)

/-- The digits of a number, decimal ones or hexadecimal ones in front of their mark. -/
inductive HasMagnitude : Text → Nat → Prop where
  | decimal {digits : Text} (filled : digits ≠ [])
      (each : ∀ digit ∈ digits, digitValue digit < 10) :
      HasMagnitude digits (placeValue 10 digits)
  | hexadecimal {digits : Text} {mark : Char} (filled : digits ≠ [])
      (each : ∀ digit ∈ digits, digitValue digit < 16) (marked : mark = 'h' ∨ mark = 'H') :
      HasMagnitude (digits ++ [mark]) (placeValue 16 digits)

/-- A sign that may be left out. -/
def optionalSign (sign : Char) (present : Bool) : Text := if present then [sign] else []

/-- A number as it is written: a minus sign, a plus sign and digits. Both signs may be left out. -/
inductive IsNumber : Text → Bool → Nat → Prop where
  | signed (negative plus : Bool) {digits : Text} {magnitude : Nat}
      (has : HasMagnitude digits magnitude) :
      IsNumber (optionalSign '-' negative ++ (optionalSign '+' plus ++ digits)) negative magnitude

/-- The value of a number with its sign. -/
def signedValue (negative : Bool) (magnitude : Nat) : Int :=
  if negative then -(magnitude : Int) else magnitude

section Digits

variable {base start value : Nat} {digits : Text} {letter : Char}

theorem hexValue?_eq (letter : Char) :
    hexValue? letter = if digitValue letter < 16 then some (digitValue letter) else none := by
  by_cases small : letter.toNat < 128
  · have each : ∀ code : Fin 128, hexValue? (Char.ofNat code) =
        if digitValue (Char.ofNat code) < 16 then some (digitValue (Char.ofNat code))
        else none := by
      decide +kernel
    have known := each ⟨letter.toNat, small⟩
    rwa [Char.ofNat_toNat] at known
  · -- Behind the first 128 characters there are no digits, and no case is known.
    have above {other : Char} (early : other.toNat < 128) : ¬letter ≤ other := by
      rw [Char.le_def, UInt32.le_iff_toNat_le, Char.toNat_val, Char.toNat_val]
      omega
    have same : letter.toLower = letter := by
      unfold Char.toLower
      rw [dif_neg]
      exact fun capital => above (show ('Z' : Char).toNat < 128 by decide) capital.2
    have absent : letter ∉ digitLetters := by
      have early : ∀ other ∈ digitLetters, other.toNat < 128 := by decide
      exact fun member => small (early letter member)
    have value : digitValue letter = 16 := by
      rw [digitValue, same]
      exact List.idxOf_eq_length absent
    simp [hexValue?, value, above (show ('9' : Char).toNat < 128 by decide),
      above (show ('f' : Char).toNat < 128 by decide),
      above (show ('F' : Char).toNat < 128 by decide)]

theorem digitValue?_eq_some_iff (small : base ≤ 16) :
    digitValue? base letter = some value ↔
      digitValue letter < base ∧ value = digitValue letter := by
  rw [digitValue?, hexValue?_eq, Option.filter_eq_some_iff]
  constructor
  · rintro ⟨found, below⟩
    split at found
    · obtain rfl := Option.some.inj found
      exact ⟨by simpa using below, rfl⟩
    · contradiction
  · rintro ⟨below, rfl⟩
    exact ⟨if_pos (by omega), by simpa using below⟩

theorem placeValue_cons (base : Nat) (digit : Char) (digits : Text) :
    placeValue base (digit :: digits) =
      digitValue digit * base ^ digits.length + placeValue base digits := by
  rw [placeValue, List.reverse_cons, List.map_append, Nat.ofDigits_append, List.map_singleton,
    Nat.ofDigits_singleton, List.length_map, List.length_reverse, placeValue, Nat.add_comm,
    Nat.mul_comm]

/-- Each digit moves those before it up by one place. -/
theorem foldlM_appendDigit_eq_some_iff (small : base ≤ 16) :
    digits.foldlM (appendDigit base) start = some value ↔
      (∀ digit ∈ digits, digitValue digit < base) ∧
        value = start * base ^ digits.length + placeValue base digits := by
  induction digits generalizing start with
  | nil => simp [placeValue, eq_comm]
  | cons digit digits inductionHypothesis =>
      rw [List.foldlM_cons, Option.bind_eq_bind, Option.bind_eq_some_iff, List.forall_mem_cons]
      have moved : start * base ^ (digits.length + 1) +
            (digitValue digit * base ^ digits.length + placeValue base digits) =
          (start * base + digitValue digit) * base ^ digits.length + placeValue base digits := by
        ring
      rw [placeValue_cons, List.length_cons, moved]
      constructor
      · rintro ⟨next, appended, later⟩
        obtain ⟨known, found, rfl⟩ := Option.map_eq_some_iff.1 appended
        obtain ⟨below, rfl⟩ := (digitValue?_eq_some_iff small).1 found
        obtain ⟨others, same⟩ := inductionHypothesis.1 later
        exact ⟨⟨below, others⟩, same⟩
      · rintro ⟨⟨below, others⟩, same⟩
        refine ⟨_, ?_, inductionHypothesis.2 ⟨others, same⟩⟩
        rw [appendDigit, (digitValue?_eq_some_iff small).2 ⟨below, rfl⟩, Option.map_some]

theorem natural?_eq_some_iff (small : base ≤ 16) :
    natural? base digits = some value ↔
      digits ≠ [] ∧ (∀ digit ∈ digits, digitValue digit < base) ∧
        value = placeValue base digits := by
  rw [natural?]
  split
  · rename_i empty
    simp [List.isEmpty_iff.1 empty]
  · rename_i filled
    rw [List.isEmpty_iff] at filled
    simp [foldlM_appendDigit_eq_some_iff small, filled]

end Digits

/-- The letters of a sign are no digits of any base. -/
theorem not_digit_of_sign {sign : Char} (isSign : sign = '-' ∨ sign = '+') :
    digitValue sign = 16 := by
  rcases isSign with rfl | rfl <;> decide

/-- A plus sign belongs to no digits, so it is read as a sign wherever it stands first. -/
theorem unsigned?_eq_some_iff {base : Nat} (small : base ≤ 16) {text : Text} {value : UInt64} :
    unsigned? base text = some value ↔ ∃ plus digits,
      text = optionalSign '+' plus ++ digits ∧ digits ≠ [] ∧
      (∀ digit ∈ digits, digitValue digit < base) ∧ placeValue base digits < 2 ^ 64 ∧
      value = UInt64.ofNat (placeValue base digits) := by
  have read (digits : Text) :
      ((natural? base digits).filter (· < UInt64.size)).map UInt64.ofNat = some value ↔
        digits ≠ [] ∧ (∀ digit ∈ digits, digitValue digit < base) ∧
          placeValue base digits < 2 ^ 64 ∧ value = UInt64.ofNat (placeValue base digits) := by
    simp only [Option.map_eq_some_iff, Option.filter_eq_some_iff, natural?_eq_some_iff small,
      decide_eq_true_eq]
    constructor
    · rintro ⟨_, ⟨⟨filled, each, rfl⟩, below⟩, rfl⟩
      exact ⟨filled, each, below, rfl⟩
    · rintro ⟨filled, each, below, rfl⟩
      exact ⟨_, ⟨⟨filled, each, rfl⟩, below⟩, rfl⟩
  unfold unsigned?
  dsimp only
  split
  · rename_i digits
    rw [read]
    constructor
    · exact fun known => ⟨true, digits, rfl, known⟩
    · rintro ⟨plus, others, same, known⟩
      cases plus with
      | true =>
          obtain rfl := (List.cons.inj same).2
          exact known
      | false =>
          obtain rfl : '+' :: digits = others := same
          have below := known.2.1 '+' (List.mem_cons_self ..)
          rw [not_digit_of_sign (.inr rfl)] at below
          omega
  · rename_i other
    rw [read]
    constructor
    · exact fun known => ⟨false, text, rfl, known⟩
    · rintro ⟨plus, others, rfl, known⟩
      cases plus with
      | true => exact absurd rfl (other others)
      | false => exact known

/-- A mark for hexadecimal digits is no decimal digit. -/
theorem digitValue_mark {mark : Char} (marked : mark = 'h' ∨ mark = 'H') :
    digitValue mark = 16 := by
  rcases marked with rfl | rfl <;> decide

theorem magnitude?_eq_some_iff {text : Text} {value : UInt64} :
    magnitude? text = some value ↔ ∃ plus digits magnitude,
      text = optionalSign '+' plus ++ digits ∧ HasMagnitude digits magnitude ∧
      magnitude < 2 ^ 64 ∧ value = UInt64.ofNat magnitude := by
  constructor
  · intro found
    unfold magnitude? at found
    split at found
    · rename_i mark last
      split at found
      · rename_i marked
        obtain ⟨front, rfl⟩ := List.getLast?_eq_some_iff.1 last
        rw [List.dropLast_concat, unsigned?_eq_some_iff (by omega)] at found
        obtain ⟨plus, digits, rfl, filled, each, below, rfl⟩ := found
        refine ⟨plus, digits ++ [mark], _, List.append_assoc .., .hexadecimal filled each ?_,
          below, rfl⟩
        simpa using marked
      · obtain ⟨plus, digits, rfl, filled, each, below, rfl⟩ :=
          (unsigned?_eq_some_iff (by omega)).1 found
        exact ⟨plus, digits, _, rfl, .decimal filled each, below, rfl⟩
    · contradiction
  · rintro ⟨plus, digits, magnitude, rfl, has, below, rfl⟩
    cases has with
    | decimal filled each =>
        obtain ⟨front, last, rfl⟩ := List.eq_nil_or_concat digits |>.resolve_left filled
        have plain : ¬(last == 'h' || last == 'H') = true := by
          rw [Bool.or_eq_true, beq_iff_eq, beq_iff_eq]
          intro marked
          have decimal := each last (by simp)
          rw [digitValue_mark marked] at decimal
          omega
        rw [magnitude?, List.concat_eq_append, ← List.append_assoc, List.getLast?_concat]
        dsimp only
        rw [if_neg plain, List.append_assoc, ← List.concat_eq_append]
        exact (unsigned?_eq_some_iff (by omega)).2 ⟨plus, _, rfl, filled, each, below, rfl⟩
    | @hexadecimal digits mark filled each marked =>
        rw [magnitude?, ← List.append_assoc, List.getLast?_concat]
        dsimp only
        rw [if_pos (by simpa using marked), List.dropLast_concat]
        exact (unsigned?_eq_some_iff (by omega)).2 ⟨plus, digits, rfl, filled, each, below, rfl⟩

theorem HasMagnitude.head?_ne {digits : Text} {magnitude : Nat}
    (has : HasMagnitude digits magnitude) {sign : Char} (isSign : sign = '-' ∨ sign = '+') :
    digits.head? ≠ some sign := by
  intro first
  obtain ⟨rest, same⟩ := List.head?_eq_some_iff.1 first
  have outside := not_digit_of_sign isSign
  cases has with
  | decimal filled each =>
      have below := each sign (by simp [same])
      omega
  | @hexadecimal digits mark filled each marked =>
      obtain ⟨other, others, rfl⟩ := List.exists_cons_of_ne_nil filled
      obtain rfl := (List.cons.inj same).1
      have below := each other (List.mem_cons_self ..)
      omega

/-- The value of a number modulo 2^64. -/
def wrapped (negative : Bool) (magnitude : Nat) : UInt64 :=
  if negative then -UInt64.ofNat magnitude else UInt64.ofNat magnitude

theorem number?_eq_some_iff_wrapped {word : Text} {value : UInt64} :
    number? word = some value ↔ ∃ negative magnitude, IsNumber word negative magnitude ∧
      magnitude < 2 ^ 64 ∧ value = wrapped negative magnitude := by
  constructor
  · intro found
    unfold number? at found
    split at found
    · obtain ⟨_, read, rfl⟩ := Option.map_eq_some_iff.1 found
      obtain ⟨plus, digits, magnitude, rfl, has, below, rfl⟩ := magnitude?_eq_some_iff.1 read
      exact ⟨true, magnitude, .signed true plus has, below, rfl⟩
    · obtain ⟨plus, digits, magnitude, rfl, has, below, rfl⟩ := magnitude?_eq_some_iff.1 found
      exact ⟨false, magnitude, .signed false plus has, below, rfl⟩
  · rintro ⟨negative, magnitude, ⟨_, plus, has⟩, below, rfl⟩
    have read := magnitude?_eq_some_iff.2 ⟨plus, _, magnitude, rfl, has, below, rfl⟩
    cases negative with
    | true =>
        change (magnitude? (optionalSign '+' plus ++ _)).map (- ·) = _
        rw [read]
        rfl
    | false =>
        -- Without a minus sign the word starts with a plus sign or a digit.
        change number? (optionalSign '+' plus ++ _) = _
        rw [number?]
        · exact read
        · intro rest same
          cases plus with
          | true => exact absurd (List.cons.inj same).1 (by decide)
          | false => exact has.head?_ne (.inl rfl) (congrArg List.head? same)

theorem toNat_wrapped {negative : Bool} {magnitude : Nat} (below : magnitude < 2 ^ 64) :
    (wrapped negative magnitude).toNat =
      if negative then (2 ^ 64 - magnitude) % 2 ^ 64 else magnitude := by
  have kept : (UInt64.ofNat magnitude).toNat = magnitude := UInt64.toNat_ofNat_of_lt' below
  cases negative with
  | true =>
      change (-UInt64.ofNat magnitude).toNat = (2 ^ 64 - magnitude) % 2 ^ 64
      rw [UInt64.toNat_neg, kept]
      rfl
  | false => exact kept

/-- A unit of a width keeps the value of a number modulo the values that it can hold. -/
theorem toNat_truncate_wrapped {width : Width} (integral : width ≠ .ten) {negative : Bool}
    {magnitude : Nat} (below : magnitude < 2 ^ 64) :
    ((width.truncate (wrapped negative magnitude)).toNat : Int) =
      signedValue negative magnitude % 2 ^ (8 * width.size) := by
  rw [toNat_truncate integral, toNat_wrapped below]
  cases negative with
  | true =>
      change (((2 ^ 64 - magnitude) % 2 ^ 64 % 2 ^ (8 * width.size) : Nat) : Int) =
        -(magnitude : Int) % 2 ^ (8 * width.size)
      cases width with
      | ten => exact absurd rfl integral
      | byte | word | double | quad =>
          simp only [Width.size]
          omega
  | false =>
      change ((magnitude % 2 ^ (8 * width.size) : Nat) : Int) = (magnitude : Int) % _
      rw [Int.natCast_mod, Int.natCast_pow]
      rfl

/-- A word is a number exactly when it has at most one minus sign, then at most one plus sign, and
then decimal digits or hexadecimal digits with their mark whose value is below 2^64. A minus sign
negates modulo 2^64, and a unit of data keeps the value with its sign modulo its own size. -/
theorem number?_outcomes (word : Text) :
    (∀ value, number? word = some value ↔ ∃ negative magnitude,
      IsNumber word negative magnitude ∧ magnitude < 2 ^ 64 ∧
      value.toNat = if negative then (2 ^ 64 - magnitude) % 2 ^ 64 else magnitude) ∧
    (number? word = none ↔ ∀ negative magnitude, IsNumber word negative magnitude →
      2 ^ 64 ≤ magnitude) ∧
    ∀ negative magnitude, IsNumber word negative magnitude → magnitude < 2 ^ 64 →
      ∃ value, number? word = some value ∧ ∀ width : Width, width ≠ .ten →
        ((width.truncate value).toNat : Int) =
          signedValue negative magnitude % 2 ^ (8 * width.size) := by
  refine ⟨fun value => ?_, ?_, fun negative magnitude isNumber below => ?_⟩
  · rw [number?_eq_some_iff_wrapped]
    constructor
    · rintro ⟨negative, magnitude, isNumber, below, rfl⟩
      exact ⟨negative, magnitude, isNumber, below, toNat_wrapped below⟩
    · rintro ⟨negative, magnitude, isNumber, below, same⟩
      rw [← toNat_wrapped below] at same
      exact ⟨negative, magnitude, isNumber, below, UInt64.toNat_inj.1 same⟩
  · rw [Option.eq_none_iff_forall_ne_some]
    constructor
    · intro missing negative magnitude isNumber
      by_contra below
      exact missing _ (number?_eq_some_iff_wrapped.2
        ⟨negative, magnitude, isNumber, Nat.lt_of_not_le below, rfl⟩)
    · intro large value found
      obtain ⟨negative, magnitude, isNumber, below, _⟩ := number?_eq_some_iff_wrapped.1 found
      exact absurd below (Nat.not_lt.2 (large negative magnitude isNumber))
  · exact ⟨_, number?_eq_some_iff_wrapped.2 ⟨negative, magnitude, isNumber, below, rfl⟩,
      fun width integral => toNat_truncate_wrapped integral below⟩

/-- Both signs, a leading zero and digits in both cases. A byte keeps 1 of -255. -/
theorem number?_outcomes_signed :
    IsNumber "-+0fFH".toList true 255 ∧ 255 < 2 ^ 64 ∧
      ∃ value, number? "-+0fFH".toList = some value ∧ (Width.byte.truncate value).toNat = 1 := by
  have value : placeValue 16 "0fF".toList = 255 := by decide
  have has : HasMagnitude ("0fF".toList ++ ['H']) (placeValue 16 "0fF".toList) :=
    .hexadecimal (by decide) (by decide) (.inr rfl)
  rw [value] at has
  have isNumber : IsNumber "-+0fFH".toList true 255 := .signed true true has
  obtain ⟨number, read, kept⟩ := (number?_outcomes _).2.2 true 255 isNumber (by decide)
  refine ⟨isNumber, by decide, number, read, ?_⟩
  have one : ((Width.byte.truncate number).toNat : Int) = 1 := kept .byte (by decide)
  exact_mod_cast one

/-- A second sign, a mark without digits and a value past the last one are no numbers. -/
example : number? "+-1".toList = none ∧ number? ['h'] = none ∧
    number? "18446744073709551616".toList = none := by decide +kernel

end DataSegment.Listing
