import DataSegment.Conversion.Statement
import DataSegment.Proofs.Listing.Literal

namespace DataSegment.Listing.Quoted

open Assembly

/-- The number of quotes that stand side by side at the end of a text. -/
def endQuotes (text : Text) : Nat := (text.reverse.takeWhile (· == '\'')).length

/-- Quotes that stand side by side pair up from the left. A quote is left over when no quote follows
it and those directly before it have all found a partner. -/
def Unpaired (before after : Text) : Prop :=
  endQuotes before % 2 = 0 ∧ after.head? ≠ some '\''

variable {content before after : Text}

theorem endQuotes_cons_of_ne {letter : Char} (other : letter ≠ '\'') (text : Text) :
    endQuotes (letter :: text) = endQuotes text := by
  rw [endQuotes, endQuotes, List.reverse_cons, List.takeWhile_append]
  split
  · rename_i whole
    simpa [other] using whole.symm
  · rfl

/-- A pair of quotes in front does not count. -/
theorem endQuotes_cons_pair (text : Text) :
    endQuotes ('\'' :: '\'' :: text) % 2 = endQuotes text % 2 := by
  rw [endQuotes, endQuotes, List.reverse_cons, List.reverse_cons, List.append_assoc,
    List.takeWhile_append]
  split
  · rename_i whole
    have all : text.reverse.takeWhile (· == '\'') = text.reverse :=
      (List.takeWhile_prefix _).eq_of_length whole
    rw [all, List.length_append]
    simp
  · rfl

/-- In a text with its quotes doubled every quote has a partner. -/
theorem endQuotes_double (content : Text) : endQuotes (double content) % 2 = 0 := by
  induction content with
  | nil => rfl
  | cons letter content inductionHypothesis =>
      rw [double_cons]
      by_cases quote : letter = '\''
      · rw [if_pos quote, List.cons_append, List.singleton_append, endQuotes_cons_pair,
          inductionHypothesis]
      · rw [if_neg quote, List.singleton_append, endQuotes_cons_of_ne quote, inductionHypothesis]

theorem not_unpaired_double (cut : double content = before ++ '\'' :: after) :
    ¬Unpaired before after := by
  induction content generalizing before with
  | nil => simp [double] at cut
  | cons letter content inductionHypothesis =>
      rw [double_cons] at cut
      by_cases quote : letter = '\''
      · rw [if_pos quote, List.cons_append, List.singleton_append] at cut
        -- The quote is the first of the pair, the second, or stands behind it.
        match before, cut with
        | [], cut =>
            rintro ⟨_, last⟩
            exact last (by rw [← (List.cons.inj cut).2, List.head?_cons])
        | [first], cut =>
            rintro ⟨even, _⟩
            rw [← (List.cons.inj cut).1] at even
            contradiction
        | first :: second :: before, cut =>
            rw [List.cons_append, List.cons_append, List.cons.injEq, List.cons.injEq] at cut
            obtain ⟨rfl, rfl, cut⟩ := cut
            rintro ⟨even, last⟩
            rw [endQuotes_cons_pair] at even
            exact inductionHypothesis cut ⟨even, last⟩
      · rw [if_neg quote, List.singleton_append] at cut
        cases before with
        | nil => exact absurd (List.cons.inj cut).1 quote
        | cons first before =>
            obtain ⟨rfl, later⟩ := List.cons.inj cut
            rintro ⟨even, last⟩
            rw [endQuotes_cons_of_ne quote] at even
            exact inductionHypothesis later ⟨even, last⟩

/-- What is wrong behind doubled text is wrong with the whole. -/
theorem ofBody_double_append {rest : Text}
    (fails : ofBody rest = .trailed ∨ ofBody rest = .unclosed) (content : Text) :
    ofBody (double content ++ rest) = ofBody rest := by
  have kept (letter : Char) : (ofBody rest).cons letter = ofBody rest := by
    rcases fails with fails | fails <;> rw [fails] <;> rfl
  induction content with
  | nil => rfl
  | cons letter content inductionHypothesis =>
      rw [double_cons, List.append_assoc]
      by_cases quote : letter = '\''
      · rw [if_pos quote, List.cons_append, List.singleton_append, ofBody, inductionHypothesis,
          kept]
      · rw [if_neg quote, List.singleton_append, ofBody_cons_of_ne quote, inductionHypothesis, kept]

theorem ofBody_trailed {letter : Char} (other : letter ≠ '\'') (rest : Text) :
    ofBody ('\'' :: letter :: rest) = .trailed := by
  rw [ofBody]
  exact fun same => other same

/-- A text goes on with doubled text up to its end or up to a quote that is left over. -/
theorem exists_double_append (body : Text) :
    ∃ content rest, body = double content ++ rest ∧
      (rest = [] ∨ rest = ['\''] ∨
        ∃ letter others, letter ≠ '\'' ∧ rest = '\'' :: letter :: others) := by
  induction body using ofBody.induct with
  | case1 => exact ⟨[], [], rfl, .inl rfl⟩
  | case2 rest inductionHypothesis =>
      obtain ⟨content, others, rfl, ends⟩ := inductionHypothesis
      exact ⟨'\'' :: content, others, rfl, ends⟩
  | case3 => exact ⟨[], ['\''], rfl, .inr (.inl rfl)⟩
  | case4 letter rest other =>
      exact ⟨[], '\'' :: letter :: rest, rfl, .inr (.inr ⟨letter, rest, other, rfl⟩)⟩
  | case5 letter rest paired last stray inductionHypothesis =>
      have quote : letter ≠ '\'' := by
        rintro rfl
        cases rest with
        | nil => exact last rfl rfl
        | cons next rest => exact stray next rest rfl rfl
      obtain ⟨content, others, rfl, ends⟩ := inductionHypothesis
      refine ⟨letter :: content, others, ?_, ends⟩
      rw [double_cons, if_neg quote, List.append_assoc, List.singleton_append]

theorem ofBody_eq_closed_iff {body : Text} :
    ofBody body = .closed content ↔ body = double content ++ ['\''] := by
  constructor
  · intro found
    obtain ⟨read, rest, rfl, rfl | rfl | ⟨letter, others, other, rfl⟩⟩ := exists_double_append body
    · rw [ofBody_double_append (.inr rfl)] at found
      contradiction
    · rw [ofBody_double] at found
      obtain rfl := Quoted.closed.inj found
      rfl
    · have trailed := ofBody_trailed other others
      rw [ofBody_double_append (.inl trailed), trailed] at found
      contradiction
  · rintro rfl
    exact ofBody_double content

/-- A quote that is left over stands behind doubled text. -/
theorem unpaired_double {rest : Text} (other : rest.head? ≠ some '\'') :
    Unpaired (double content) rest := ⟨endQuotes_double content, other⟩

/-- Nothing follows the quote that closes a text. -/
theorem not_unpaired_closed {letter : Char}
    (cut : double content ++ ['\''] = before ++ '\'' :: letter :: after) :
    ¬Unpaired before (letter :: after) := by
  rcases List.eq_nil_or_concat after with rfl | ⟨front, last, rfl⟩
  · have parts : double content ++ ['\''] = (before ++ ['\'']) ++ [letter] := by
      rw [cut, List.append_assoc, List.singleton_append]
    have last : '\'' = letter := List.singleton_inj.1 (List.append_inj' parts rfl).2
    exact fun unpaired => unpaired.2 (congrArg some last.symm)
  · have parts : double content ++ ['\''] = (before ++ '\'' :: letter :: front) ++ [last] := by
      rw [cut, List.concat_eq_append, List.append_assoc]
      rfl
    have inside := not_unpaired_double (List.append_inj' parts rfl).1
    exact fun unpaired => inside unpaired

theorem ofBody_eq_trailed_iff {body : Text} :
    ofBody body = .trailed ↔ ∃ before letter after,
      body = before ++ '\'' :: letter :: after ∧ Unpaired before (letter :: after) := by
  obtain ⟨content, rest, rfl, rfl | rfl | ⟨letter, others, other, rfl⟩⟩ := exists_double_append body
  · rw [ofBody_double_append (.inr rfl), List.append_nil]
    refine iff_of_false (by rw [ofBody]; exact Quoted.noConfusion) ?_
    rintro ⟨before, letter, after, cut, unpaired⟩
    exact not_unpaired_double cut unpaired
  · rw [ofBody_double]
    refine iff_of_false Quoted.noConfusion ?_
    rintro ⟨before, letter, after, cut, unpaired⟩
    exact not_unpaired_closed cut unpaired
  · have trailed := ofBody_trailed other others
    rw [ofBody_double_append (.inl trailed), trailed]
    exact iff_of_true rfl ⟨_, _, _, rfl, unpaired_double (by simpa using other)⟩

theorem ofBody_eq_unclosed_iff {body : Text} :
    ofBody body = .unclosed ↔ ∀ before after, body = before ++ '\'' :: after →
      ¬Unpaired before after := by
  obtain ⟨content, rest, rfl, rfl | rfl | ⟨letter, others, other, rfl⟩⟩ := exists_double_append body
  · rw [ofBody_double_append (.inr rfl), List.append_nil]
    exact iff_of_true rfl fun before after cut => not_unpaired_double cut
  · rw [ofBody_double]
    refine iff_of_false Quoted.noConfusion fun paired => ?_
    exact paired _ _ rfl (unpaired_double (by simp))
  · have trailed := ofBody_trailed other others
    rw [ofBody_double_append (.inl trailed), trailed]
    refine iff_of_false Quoted.noConfusion fun paired => ?_
    exact paired _ _ rfl (unpaired_double (by simpa using other))

/-- A text behind an opening quote gives the pieces of the text that is quoted. -/
theorem stringPieces_eq_ok_iff {body : Text} {pieces : List Piece} :
    stringPieces ('\'' :: body) = .ok pieces ↔
      ∃ content, ofBody body = .closed content ∧ pieces = content.map .quoted := by
  rw [stringPieces]
  cases ofBody body with
  | closed content => simp [eq_comm]
  | trailed => simp
  | unclosed => simp

/-- A text that is not quoted is reported as a whole. -/
theorem stringPieces_eq_error_iff {body : Text} {cause : Cause} :
    stringPieces ('\'' :: body) = .error cause ↔
      (ofBody body = .trailed ∧ cause = .textAfterQuote body) ∨
        (ofBody body = .unclosed ∧ cause = .openQuote body) := by
  rw [stringPieces]
  cases ofBody body with
  | closed content => simp
  | trailed => simp [eq_comm]
  | unclosed => simp [eq_comm]

/-- A text behind an opening quote is quoted text exactly when it is a text with its quotes doubled
and a closing quote behind it, and no other text is read as the same. Of the others, either a quote
that is left over is followed by something or no quote is left over. An operand gives its quoted
text, or the report of what is wrong with all of it. -/
theorem ofBody_outcomes (body : Text) :
    (∀ content, ofBody body = .closed content ↔ body = double content ++ ['\'']) ∧
    (ofBody body = .trailed ↔ ∃ before letter after,
      body = before ++ '\'' :: letter :: after ∧ Unpaired before (letter :: after)) ∧
    (ofBody body = .unclosed ↔ ∀ before after, body = before ++ '\'' :: after →
      ¬Unpaired before after) ∧
    (∀ other content, ofBody body = .closed content → ofBody other = .closed content →
      body = other) ∧
    (∀ pieces, stringPieces ('\'' :: body) = .ok pieces ↔
      ∃ content, body = double content ++ ['\''] ∧ pieces = content.map .quoted) ∧
    ∀ cause, stringPieces ('\'' :: body) = .error cause ↔
      (ofBody body = .trailed ∧ cause = .textAfterQuote body) ∨
        (ofBody body = .unclosed ∧ cause = .openQuote body) := by
  refine ⟨fun content => ofBody_eq_closed_iff, ofBody_eq_trailed_iff, ofBody_eq_unclosed_iff, ?_,
    fun pieces => ?_, fun cause => stringPieces_eq_error_iff⟩
  · intro other content closed closedToo
    rw [ofBody_eq_closed_iff.1 closed, ofBody_eq_closed_iff.1 closedToo]
  · rw [stringPieces_eq_ok_iff]
    simp only [ofBody_eq_closed_iff]

end DataSegment.Listing.Quoted
