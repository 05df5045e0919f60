import DataSegment.Assembly.Statement
import DataSegment.Proofs.Text.Numeral
import DataSegment.Text.Latin
import DataSegment.Text.Search
import Mathlib.Data.List.TakeWhile

namespace DataSegment.Assembly

open Text

/-- The value of digits of which each is known to be one. -/
def digitsValue (base : Nat) (digits : Text) : Nat :=
  digits.foldl (fun value digit => value * base + (hexValue? digit).getD 0) 0

/-- An escape keeps the low eight bits of its value. -/
def lowByte (value : Nat) : Char := Char.ofNat (value % 256)

/-- Reads what follows a backslash: another one, any number of hexadecimal digits behind their
mark, or up to three octal digits. Here `limit` is the number of characters that are taken for
octal digits. -/
def readEscape? (limit : Nat) (text : Text) : Option (Char × Text) :=
  match text with
  | '\\' :: rest => some ('\\', rest)
  | 'x' :: rest =>
      some (lowByte (digitsValue 16 (rest.takeWhile isHexDigit)), rest.dropWhile isHexDigit)
  | text =>
      let digits := (text.take 3).takeWhile fun letter => (digitValue? limit letter).isSome
      if digits.isEmpty then none
      else some (lowByte (digitsValue 8 digits), text.drop digits.length)

theorem readEscape?_length {limit : Nat} {text rest : Text} {letter : Char}
    (found : readEscape? limit text = some (letter, rest)) : rest.length ≤ text.length := by
  unfold readEscape? at found
  split at found
  · simp only [Option.some.injEq, Prod.mk.injEq] at found
    simp [← found.2]
  · rename_i tail
    simp only [Option.some.injEq, Prod.mk.injEq] at found
    have bound : (tail.dropWhile isHexDigit).length ≤ tail.length :=
      (List.dropWhile_sublist isHexDigit).length_le
    rw [← found.2, List.length_cons]
    omega
  · dsimp only at found
    split at found
    · simp at found
    · simp only [Option.some.injEq, Prod.mk.injEq] at found
      simp [← found.2]

/-- Reads a string up to the double quote that ends it. -/
def readContent (limit : Nat) (text : Text) : Option (Text × Text) :=
  match text with
  | [] => none
  | '"' :: rest => some ([], rest)
  | '\\' :: rest =>
      match _found : readEscape? limit rest with
      | none => none
      | some (letter, rest) =>
          (readContent limit rest).map fun read => (letter :: read.1, read.2)
  | letter :: rest => (readContent limit rest).map fun read => (letter :: read.1, read.2)
termination_by text.length
decreasing_by
  · exact Nat.lt_succ_of_le (readEscape?_length _found)
  · exact Nat.lt_succ_self _

/-- The closing quote is the last character of a directive. -/
def readClosed? (limit : Nat) (content : Text) : Option Text :=
  (readContent limit content).bind fun read => if read.2.isEmpty then some read.1 else none

/-- The characters that a string directive lays out. One of the two directives puts a zero behind
them. -/
def readString? (limit : Nat) (directive : Text) : Option Text :=
  match after? ".ascii \"".toList directive with
  | some content => readClosed? limit content
  | none =>
      match after? ".asciz \"".toList directive with
      | some content => (readClosed? limit content).map (· ++ ['\x00'])
      | none => none

/-- The character that a piece stands for. -/
def Piece.letter : Piece → Char
  | .quoted letter => letter
  | .byte value => Char.ofUInt8 value

theorem readContent_escape {limit : Nat} {text rest : Text} {letter : Char}
    (found : readEscape? limit text = some (letter, rest)) :
    readContent limit ('\\' :: text) =
      (readContent limit rest).map fun read => (letter :: read.1, read.2) := by
  rw [readContent]
  split
  · rename_i failed
    rw [failed] at found
    simp at found
  · rename_i other remaining known
    rw [found] at known
    simp only [Option.some.injEq, Prod.mk.injEq] at known
    rw [known.1, known.2]

theorem readContent_plain {limit : Nat} {letter : Char} (closes : letter ≠ '"')
    (escapes : letter ≠ '\\') (rest : Text) :
    readContent limit (letter :: rest) =
      (readContent limit rest).map fun read => (letter :: read.1, read.2) := by
  rw [readContent]
  · exact fun same => closes same
  · exact fun same => escapes same

theorem foldl_of_foldlM {base start value : Nat} {digits : Text}
    (found : digits.foldlM (appendDigit base) start = some value) :
    digits.foldl (fun value digit => value * base + (hexValue? digit).getD 0) start = value := by
  induction digits generalizing start with
  | nil => simpa using found
  | cons digit digits inductionHypothesis =>
      simp only [List.foldlM_cons, Option.bind_eq_bind, Option.bind_eq_some_iff, appendDigit,
        Option.map_eq_some_iff] at found
      obtain ⟨_, ⟨first, known, rfl⟩, later⟩ := found
      have same : hexValue? digit = some first := by
        rw [digitValue?, Option.filter_eq_some_iff] at known
        exact known.1
      rw [List.foldl_cons, same, Option.getD_some]
      exact inductionHypothesis later

theorem lowByte_toNat (value : UInt8) : lowByte value.toNat = Char.ofUInt8 value := by
  have bound : value.toNat < 256 := value.toNat_lt
  rw [lowByte, Nat.mod_eq_of_lt bound, ← Latin.toNat_ofUInt8, Char.ofNat_toNat]

theorem takeWhile_append_of_stop {test : Char → Bool} {first rest : Text}
    (all : ∀ letter ∈ first, test letter = true)
    (stops : ∀ letter, rest.head? = some letter → test letter = false) :
    (first ++ rest).takeWhile test = first ∧ (first ++ rest).dropWhile test = rest := by
  rw [List.takeWhile_append_of_pos all, List.dropWhile_append_of_pos all]
  cases rest with
  | nil => simp
  | cons letter rest =>
      have stop := stops letter rfl
      simp [stop]

/-- A hexadecimal escape ends where no further digit follows. -/
theorem readEscape?_hexadecimal (limit : Nat) (value : UInt8) {rest : Text}
    (stops : ∀ letter, rest.head? = some letter → isHexDigit letter = false) :
    readEscape? limit ('x' :: paddedNumeral 2 16 value.toNat ++ rest) =
      some (Char.ofUInt8 value, rest) := by
  have digits : ∀ letter ∈ paddedNumeral 2 16 value.toNat, isHexDigit letter = true := by
    intro letter member
    rw [isHexDigit, ← digitValue?_sixteen]
    exact isSome_digitValue?_paddedNumeral (by omega) (by omega) 2 value.toNat letter member
  obtain ⟨taken, dropped⟩ := takeWhile_append_of_stop digits stops
  have read : digitsValue 16 (paddedNumeral 2 16 value.toNat) = value.toNat :=
    foldl_of_foldlM (foldlM_paddedNumeral (by omega) (by omega) 2 value.toNat)
  rw [List.cons_append, readEscape?, taken, dropped, read, lowByte_toNat]

/-- Three octal digits are all that an escape can take. -/
theorem readEscape?_octal {limit : Nat} (atLeast : 8 ≤ limit) (value : UInt8) (rest : Text) :
    readEscape? limit (paddedNumeral 3 8 value.toNat ++ rest) =
      some (Char.ofUInt8 value, rest) := by
  have bound : value.toNat < 256 := value.toNat_lt
  have three : (paddedNumeral 3 8 value.toNat).length = 3 :=
    length_paddedNumeral (by omega) (by omega) (by omega)
  have octal : ∀ digit ∈ paddedNumeral 3 8 value.toNat, (digitValue? 8 digit).isSome :=
    isSome_digitValue?_paddedNumeral (by omega) (by omega) 3 value.toNat
  have read : digitsValue 8 (paddedNumeral 3 8 value.toNat) = value.toNat :=
    foldl_of_foldlM (foldlM_paddedNumeral (by omega) (by omega) 3 value.toNat)
  generalize paddedNumeral 3 8 value.toNat = digits at three octal read ⊢
  have taken : ((digits ++ rest).take 3).takeWhile
      (fun letter => (digitValue? limit letter).isSome) = digits := by
    rw [← three, List.take_left, List.takeWhile_eq_self_iff]
    exact fun letter member => isSome_digitValue?_mono atLeast (octal letter member)
  have filled : digits.isEmpty = false := by
    cases digits with
    | nil => simp at three
    | cons _ _ => rfl
  rw [readEscape?]
  · simp only [taken, filled, Bool.false_eq_true, if_false, List.drop_left, read, lowByte_toNat]
  · intro tail same
    have := octal '\\' (by cases digits <;> simp_all)
    simp [show digitValue? 8 '\\' = none by decide] at this
  · intro tail same
    have := octal 'x' (by cases digits <;> simp_all)
    simp [show digitValue? 8 'x' = none by decide] at this

/-- The short escape of a double quote ends where no further digit follows. -/
theorem readEscape?_doubleQuote {limit : Nat} (atLeast : 8 ≤ limit) {rest : Text}
    (stops : ∀ letter, rest.head? = some letter → (digitValue? limit letter).isSome = false) :
    readEscape? limit ('4' :: '2' :: rest) = some ('"', rest) := by
  have four := isSome_digitValue?_mono atLeast (show (digitValue? 8 '4').isSome by decide)
  have two := isSome_digitValue?_mono atLeast (show (digitValue? 8 '2').isSome by decide)
  have taken : (('4' :: '2' :: rest).take 3).takeWhile
      (fun letter => (digitValue? limit letter).isSome) = ['4', '2'] := by
    cases rest with
    | nil => simp [four, two]
    | cons letter rest => simp [four, two, stops letter rfl]
  rw [readEscape?]
  · have read : lowByte (digitsValue 8 ['4', '2']) = '"' := by decide
    simp only [taken]
    rw [if_neg (by simp), read]
    rfl
  · intro tail same
    simp at same
  · intro tail same
    simp at same

/-- The first character behind a piece cannot be read into the escape of the piece. -/
theorem head?_renderPieces {test : Char → Bool} (quote : test '"' = false)
    (backslash : test '\\' = false) {pieces : List Piece}
    (apart : Piece.extends pieces.head? test = false) (rest : Text) :
    ∀ letter, (renderPieces pieces ++ '"' :: rest).head? = some letter → test letter = false := by
  intro letter first
  cases pieces with
  | nil =>
      have same : letter = '"' := by simpa [renderPieces] using first.symm
      rw [same, quote]
  | cons piece pieces =>
      rw [renderPieces, List.append_assoc] at first
      cases piece with
      | byte value =>
          have same : letter = '\\' := by
            rw [Piece.render] at first
            split at first <;> simpa using first.symm
          rw [same, backslash]
      | quoted other =>
          rw [Piece.render] at first
          split at first
          · have same : letter = '\\' := by
              split at first <;> simpa using first.symm
            rw [same, backslash]
          · split at first
            · have same : letter = '\\' := by simpa using first.symm
              rw [same, backslash]
            · have same : letter = other := by simpa using first.symm
              rw [same]
              simpa [Piece.extends] using apart

/-- The reader takes one piece off what was rendered. A double quote needs that the reader takes
no other characters for octal digits than the writer. -/
theorem readContent_render {limit : Nat} (atLeast : 8 ≤ limit) (piece : Piece)
    {pieces : List Piece} (rest : Text)
    (apart : piece = .quoted '"' → Piece.extends pieces.head? isOctalDigit = false →
      Piece.extends pieces.head? (fun letter => (digitValue? limit letter).isSome) = false)
    (limited : limit ≤ 10) :
    readContent limit (piece.render pieces.head? ++ (renderPieces pieces ++ '"' :: rest)) =
      (readContent limit (renderPieces pieces ++ '"' :: rest)).map
        fun read => (piece.letter :: read.1, read.2) := by
  have stops {test : Char → Bool} (quote : test '"' = false) (backslash : test '\\' = false)
      (apart : Piece.extends pieces.head? test = false) :=
    head?_renderPieces quote backslash apart rest
  cases piece with
  | byte value =>
      rw [Piece.render]
      split
      · rw [List.cons_append]
        exact readContent_escape (readEscape?_octal atLeast value _)
      · rename_i ends
        rw [List.cons_append]
        exact readContent_escape (readEscape?_hexadecimal limit value
          (stops (by decide) (by decide) (by simpa using ends)))
  | quoted letter =>
      rw [Piece.render]
      split
      · rename_i same
        subst same
        split
        · have read := readEscape?_octal atLeast 34 (renderPieces pieces ++ '"' :: rest)
          exact readContent_escape read
        · rename_i ends
          have digits : ∀ limit ≤ 10, (digitValue? limit '"').isSome = false ∧
              (digitValue? limit '\\').isSome = false := by decide
          have never := digits limit limited
          exact readContent_escape (readEscape?_doubleQuote atLeast
            (stops never.1 never.2 (apart rfl (by simpa using ends))))
      · rename_i closes
        split
        · rename_i same
          subst same
          exact readContent_escape rfl
        · rename_i escapes
          exact readContent_plain closes escapes _

/-- A reader of eight octal digits finds every piece that was rendered. -/
theorem readContent_renderPieces (pieces : List Piece) (rest : Text) :
    readContent 8 (renderPieces pieces ++ '"' :: rest) = some (pieces.map Piece.letter, rest) := by
  induction pieces with
  | nil => simp [renderPieces, readContent]
  | cons piece pieces inductionHypothesis =>
      rw [renderPieces, List.append_assoc,
        readContent_render (by omega) piece rest (fun _ ends => ends) (by omega),
        inductionHypothesis, Option.map_some, List.map_cons]

theorem readClosed?_renderPieces (pieces : List Piece) :
    readClosed? 8 (renderPieces pieces ++ ['"']) = some (pieces.map Piece.letter) := by
  rw [readClosed?, readContent_renderPieces pieces [], Option.bind_some, List.isEmpty_nil,
    if_pos rfl]

/-- A string statement lays out its pieces, and a zero behind them where it is asked for. -/
theorem readString?_render (symbolPrefix : Text) (zeroEnded : Bool) (pieces : List Piece) :
    readString? 8 ((Statement.string zeroEnded pieces).render symbolPrefix) =
      some (pieces.map Piece.letter ++ if zeroEnded then ['\x00'] else []) := by
  cases zeroEnded with
  | true =>
      have other (content : Text) : after? ".ascii \"".toList (".asciz \"".toList ++ content) =
          none := rfl
      rw [Statement.render_string, if_pos rfl, readString?, other, after?_append]
      dsimp only
      rw [readClosed?_renderPieces, Option.map_some, if_pos rfl]
  | false =>
      rw [Statement.render_string, if_neg (by decide), readString?, after?_append]
      dsimp only
      rw [readClosed?_renderPieces, if_neg (by decide), List.append_nil]

end DataSegment.Assembly
