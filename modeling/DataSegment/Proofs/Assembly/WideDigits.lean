import DataSegment.Proofs.Assembly.StringContent

namespace DataSegment.Assembly

open Text

/-- The digits that are octal only to a reader of ten of them. -/
def isWideDigit (letter : Char) : Bool := letter == '8' || letter == '9'

theorem isWideDigit_iff {letter : Char} {digit : Nat} (known : hexValue? letter = some digit) :
    isWideDigit letter = true ↔ digit = 8 ∨ digit = 9 := by
  constructor
  · intro wide
    simp only [isWideDigit, Bool.or_eq_true, beq_iff_eq] at wide
    rcases wide with rfl | rfl
    · exact .inl (Option.some.inj known.symm)
    · exact .inr (Option.some.inj known.symm)
  · intro value
    have zero : ('0' : Char).toNat = 48 := rfl
    have place : letter.toNat = 48 + digit := by
      unfold hexValue? at known
      split at known
      · rename_i between
        simp only [Bool.and_eq_true, decide_eq_true_eq, Char.le_def, UInt32.le_iff_toNat_le,
          Char.toNat_val] at between
        rw [Option.some.injEq] at known
        omega
      · split at known
        · rw [Option.some.injEq] at known
          omega
        · rw [Option.ite_none_right_eq_some, Option.some.injEq] at known
          omega
    simp only [isWideDigit, Bool.or_eq_true, beq_iff_eq, ← Char.toNat_inj, place]
    exact value.imp (congrArg (48 + ·)) (congrArg (48 + ·))

/-- A reader of ten octal digits takes the wide ones besides the others. -/
theorem isSome_digitValue?_ten (letter : Char) :
    (digitValue? 10 letter).isSome = (isOctalDigit letter || isWideDigit letter) := by
  rw [isOctalDigit, digitValue?, digitValue?]
  cases known : hexValue? letter with
  | none =>
      have narrow : isWideDigit letter = false := by
        by_contra wide
        simp only [isWideDigit, Bool.or_eq_true, beq_iff_eq, Bool.not_eq_false] at wide
        rcases wide with rfl | rfl <;> contradiction
      rw [narrow]
      rfl
  | some digit =>
      rw [Bool.eq_iff_iff, Bool.or_eq_true, isWideDigit_iff known]
      simp only [Option.isSome_filter, Option.any_some, decide_eq_true_eq]
      omega

/-- What a reader of ten octal digits makes of a text. A double quote and a wide digit behind it
are read as one character. -/
def absorbed : Text → Text
  | [] => []
  | [letter] => [letter]
  | letter :: next :: rest =>
      if letter = '"' ∧ isWideDigit next = true then
        lowByte (digitsValue 8 ['4', '2', next]) :: absorbed rest
      else letter :: absorbed (next :: rest)

/-- A double quote stands before a wide digit. -/
def QuotesWide (text : Text) : Prop := ['"', '8'] <:+: text ∨ ['"', '9'] <:+: text

instance (text : Text) : Decidable (QuotesWide text) :=
  inferInstanceAs (Decidable (['"', '8'] <:+: text ∨ ['"', '9'] <:+: text))

theorem quotesWide_cons_cons {letter next : Char} {rest : Text} :
    QuotesWide (letter :: next :: rest) ↔
      (letter = '"' ∧ isWideDigit next = true) ∨ QuotesWide (next :: rest) := by
  have pair (digit : Char) : ['"', digit] <:+: letter :: next :: rest ↔
      (letter = '"' ∧ next = digit) ∨ ['"', digit] <:+: next :: rest := by
    rw [List.infix_cons_iff, List.cons_prefix_cons, List.cons_prefix_cons]
    simp only [List.nil_prefix, and_true, eq_comm]
  simp only [QuotesWide, pair, isWideDigit, Bool.or_eq_true, beq_iff_eq, and_or_left]
  exact or_or_or_comm

theorem not_quotesWide_singleton (letter : Char) : ¬QuotesWide [letter] := by
  rintro (found | found) <;> exact absurd found.length_le (Nat.not_succ_le_self 1)

/-- Only a double quote before a wide digit changes. -/
theorem absorbed_eq_self_iff {text : Text} : absorbed text = text ↔ ¬QuotesWide text := by
  fun_induction absorbed text with
  | case1 => decide
  | case2 letter => simp [not_quotesWide_singleton]
  | case3 letter next rest wide inductionHypothesis =>
      obtain ⟨rfl, digit⟩ := wide
      have changed : lowByte (digitsValue 8 ['4', '2', next]) ≠ '"' := by
        simp only [isWideDigit, Bool.or_eq_true, beq_iff_eq] at digit
        rcases digit with rfl | rfl <;> decide
      simp [quotesWide_cons_cons, digit, changed]
  | case4 letter next rest other inductionHypothesis =>
      simp [quotesWide_cons_cons, other, inductionHypothesis]

theorem quotedText_cons (letter : Char) (text : Text) :
    quotedText (letter :: text) =
      (Piece.quoted letter).render (text.head?.map .quoted) ++ quotedText text := by
  rw [quotedText, List.map_cons, renderPieces, List.head?_map, ← quotedText]

/-- The short escape of a double quote takes a wide digit for its third one. -/
theorem readContent_wide {digit : Char} (wide : isWideDigit digit = true) (text rest : Text) :
    readContent 10 (quotedText ('"' :: digit :: text) ++ rest) =
      (readContent 10 (quotedText text ++ rest)).map
        fun read => (lowByte (digitsValue 8 ['4', '2', digit]) :: read.1, read.2) := by
  have known : isOctalDigit digit = false ∧ digit ≠ '"' ∧ digit ≠ '\\' ∧
      (digitValue? 10 digit).isSome = true := by
    simp only [isWideDigit, Bool.or_eq_true, beq_iff_eq] at wide
    rcases wide with rfl | rfl <;> decide
  obtain ⟨octal, quote, backslash, taken⟩ := known
  have written : quotedText ('"' :: digit :: text) =
      '\\' :: '4' :: '2' :: digit :: quotedText text := by
    rw [quotedText_cons, quotedText_cons]
    simp [Piece.render, Piece.extends, octal, quote, backslash]
  have digits : (('4' :: '2' :: digit :: (quotedText text ++ rest)).take 3).takeWhile
      (fun letter => (digitValue? 10 letter).isSome) = ['4', '2', digit] := by
    have four : (digitValue? 10 '4').isSome = true := by decide
    have two : (digitValue? 10 '2').isSome = true := by decide
    simp [four, two, taken]
  have read : readEscape? 10 ('4' :: '2' :: digit :: (quotedText text ++ rest)) =
      some (lowByte (digitsValue 8 ['4', '2', digit]), quotedText text ++ rest) := by
    rw [readEscape?]
    · simp only [digits]
      rfl
    · simp
    · simp
  rw [written]
  exact readContent_escape read

/-- Where no wide digit follows a double quote, a character is read back. -/
theorem readContent_cons {letter : Char} {text : Text}
    (plain : letter = '"' → ∀ next, text.head? = some next → isWideDigit next = false)
    (rest : Text) :
    readContent 10 (quotedText (letter :: text) ++ '"' :: rest) =
      (readContent 10 (quotedText text ++ '"' :: rest)).map
        fun read => (letter :: read.1, read.2) := by
  -- Behind a double quote the two kinds of digits agree, so the writer widens for both readers.
  have apart : Piece.quoted letter = .quoted '"' →
      Piece.extends (text.map Piece.quoted).head? isOctalDigit = false →
      Piece.extends (text.map Piece.quoted).head?
        (fun letter => (digitValue? 10 letter).isSome) = false := by
    intro quote unextended
    cases text with
    | nil => rfl
    | cons next text =>
        have narrow := plain (Piece.quoted.inj quote) next rfl
        have octal : isOctalDigit next = false := unextended
        change (digitValue? 10 next).isSome = false
        rw [isSome_digitValue?_ten, octal, narrow]
        rfl
  have read := readContent_render (by omega) (.quoted letter) rest apart (by omega)
  rw [quotedText, List.map_cons, renderPieces, List.append_assoc, read]
  rfl

/-- A reader of ten octal digits absorbs the wide digits behind double quotes. -/
theorem readContent_quotedText (text rest : Text) :
    readContent 10 (quotedText text ++ '"' :: rest) = some (absorbed text, rest) := by
  fun_induction absorbed text with
  | case1 => simp [quotedText, renderPieces, readContent]
  | case2 letter =>
      rw [readContent_cons (by simp)]
      simp [quotedText, renderPieces, readContent]
  | case3 letter next text wide inductionHypothesis =>
      obtain ⟨rfl, digit⟩ := wide
      rw [readContent_wide digit, inductionHypothesis, Option.map_some]
  | case4 letter next text other inductionHypothesis =>
      have plain : letter = '"' → ∀ digit, (next :: text).head? = some digit →
          isWideDigit digit = false := by
        intro quote digit first
        rw [← Option.some.inj first]
        simpa [quote] using other
      rw [readContent_cons plain, inductionHypothesis, Option.map_some]

/-- A reader of ten octal digits finds a quoted text again unless a double quote stands before an
eight or a nine in it. There the two are read as one character. -/
theorem readClosed?_quotedText (text : Text) :
    readClosed? 10 (quotedText text ++ ['"']) = some (absorbed text) ∧
      (readClosed? 10 (quotedText text ++ ['"']) = some text ↔
        ¬['"', '8'] <:+: text ∧ ¬['"', '9'] <:+: text) := by
  have read : readClosed? 10 (quotedText text ++ ['"']) = some (absorbed text) := by
    rw [readClosed?, readContent_quotedText text [], Option.bind_some, List.isEmpty_nil,
      if_pos rfl]
  refine ⟨read, ?_⟩
  rw [read, Option.some.injEq, absorbed_eq_self_iff, QuotesWide, not_or]

/-- The digit is lost in the escape of the double quote before it. -/
theorem readClosed?_quotedText_eight :
    quotedText ['"', '8'] = "\\428".toList ∧
      readClosed? 10 (quotedText ['"', '8'] ++ ['"']) = some ['\x18'] ∧
      readClosed? 10 (quotedText ['"', '8'] ++ ['"']) ≠ some ['"', '8'] := by
  have read : readClosed? 10 (quotedText ['"', '8'] ++ ['"']) = some ['\x18'] := by
    rw [readClosed?, readContent_quotedText ['"', '8'] []]
    decide
  refine ⟨by decide, read, ?_⟩
  rw [read]
  decide

end DataSegment.Assembly
