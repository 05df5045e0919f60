import DataSegment.Proofs.Header.Layout
import DataSegment.Proofs.Text.LastLine

namespace DataSegment.Header

open Text

/-- A text that starts with the mark of a comment. -/
def StartsComment (text : Text) : Prop := ['/', '/'] <+: text ∨ ['/', '*'] <+: text

instance (text : Text) : Decidable (StartsComment text) := inferInstanceAs (Decidable (_ ∨ _))

/-- The first text is code and complete comments when the second one stands behind it. -/
inductive InCode : Text → Text → Prop where
  | nil (rest : Text) : InCode [] rest
  | letter {letter : Char} {before rest : Text}
      (plain : ¬StartsComment (letter :: (before ++ rest)))
      (later : InCode before rest) : InCode (letter :: before) rest
  | comment {comment before rest : Text} (complete : IsComment comment)
      (later : InCode before rest) : InCode (comment ++ before) rest

/-- The last comment of a text is open. -/
structure OpensComment (text before after : Text) : Prop where
  parts : text = before ++ '/' :: '*' :: after
  code : InCode before ('/' :: '*' :: after)
  unclosed : ¬['*', '/'] <:+: after

/-- A text that ends inside a block comment. -/
def EndsInside (text : Text) : Prop := ∃ before after, OpensComment text before after

theorem startsComment_cons {letter : Char} {rest : Text} :
    StartsComment (letter :: rest) ↔
      letter = '/' ∧ (rest.head? = some '/' ∨ rest.head? = some '*') := by
  cases rest with
  | nil => simp [StartsComment]
  | cons next rest =>
      simp only [StartsComment, List.cons_prefix_cons, List.nil_prefix, and_true,
        List.head?_cons, Option.some.injEq, ← and_or_left, eq_comm]

theorem StartsComment.append {text : Text} (starts : StartsComment text) (rest : Text) :
    StartsComment (text ++ rest) :=
  starts.imp (·.trans (List.prefix_append text rest)) (·.trans (List.prefix_append text rest))

/-- Only the first character of what follows matters to the code in front of it. -/
theorem InCode.of_head? {before rest other : Text} (code : InCode before rest)
    (same : rest.head? = other.head?) : InCode before other := by
  induction code with
  | nil => exact .nil other
  | @letter letter before rest plain _ inductionHypothesis =>
      refine .letter (fun starts => plain ?_) (inductionHypothesis same)
      rw [startsComment_cons] at starts ⊢
      cases before with
      | nil => rwa [List.nil_append, same]
      | cons next before => exact starts
  | comment complete _ inductionHypothesis => exact .comment complete (inductionHypothesis same)

theorem InCode.trans {first second rest : Text} (left : InCode first (second ++ rest))
    (right : InCode second rest) : InCode (first ++ second) rest := by
  generalize whole : second ++ rest = behind at left
  induction left with
  | nil => exact right
  | letter plain _ inductionHypothesis =>
      subst whole
      refine .letter ?_ (inductionHypothesis rfl)
      rw [← List.append_assoc] at plain
      exact plain
  | comment complete _ inductionHypothesis =>
      rw [List.append_assoc]
      exact .comment complete (inductionHypothesis whole)

/-- The code behind complete comments is read as if it stood alone. -/
theorem InCode.codeFrom {before rest : Text} (code : InCode before rest) :
    ∃ run, Header.codeFrom .code (before ++ rest) = prepend run (Header.codeFrom .code rest) := by
  induction code with
  | nil => exact ⟨[], rfl⟩
  | @letter letter before rest plain _ inductionHypothesis =>
      obtain ⟨run, same⟩ := inductionHypothesis
      rw [startsComment_cons, not_and, not_or] at plain
      exact ⟨[flatten letter] ++ run, by
        rw [List.cons_append, codeFrom_code_cons plain, same, prepend_prepend]⟩
  | comment complete _ inductionHypothesis =>
      obtain ⟨run, same⟩ := inductionHypothesis
      obtain ⟨gap, _, first⟩ := (Gap.comment complete).codeFrom_append
      exact ⟨gap ++ run, by rw [List.append_assoc, first, same, prepend_prepend]⟩

/-- A text is code with complete comments, and perhaps a last comment that is not complete. -/
theorem commentwise {motive : Text → Prop} (nil : motive [])
    (letter : ∀ letter rest, ¬StartsComment (letter :: rest) → motive rest →
      motive (letter :: rest))
    (comment : ∀ comment rest, IsComment comment → motive rest → motive (comment ++ rest))
    (block : ∀ content, ¬['*', '/'] <:+: content → motive ('/' :: '*' :: content))
    (line : ∀ content, '\n' ∉ content → motive ('/' :: '/' :: content)) (text : Text) :
    motive text := by
  induction size : text.length using Nat.strong_induction_on generalizing text with
  | _ size shorter =>
      cases text with
      | nil => exact nil
      | cons first rest =>
          rw [List.length_cons] at size
          by_cases plain : StartsComment (first :: rest)
          · rcases plain with ⟨content, same⟩ | ⟨content, same⟩
            · have parts : '/' :: '/' :: content = first :: rest := same
              obtain ⟨rfl, rfl⟩ := List.cons.inj parts
              cases ended : breakOn? ['\n'] content with
              | none =>
                  rw [breakOn?_eq_none_iff (by simp), List.singleton_infix_iff] at ended
                  exact line content ended
              | some halves =>
                  obtain ⟨head, after⟩ := halves
                  obtain ⟨rfl, solid⟩ := breakOn?_singleton_iff.1 ended
                  have rest := shorter after.length (by
                    simp only [List.length_append, List.length_cons] at size
                    omega) after rfl
                  have whole := comment ('/' :: '/' :: (head ++ ['\n'])) after (.line solid) rest
                  simpa using whole
            · have parts : '/' :: '*' :: content = first :: rest := same
              obtain ⟨rfl, rfl⟩ := List.cons.inj parts
              cases ended : breakOn? ['*', '/'] content with
              | none => exact block content ((breakOn?_eq_none_iff (by simp)).1 ended)
              | some halves =>
                  obtain ⟨head, after⟩ := halves
                  obtain ⟨rfl, closed⟩ := (breakOn?_eq_some_iff (by simp)).1 ended
                  have rest := shorter after.length (by
                    simp only [List.length_append, List.length_cons] at size
                    omega) after rfl
                  have whole := comment ('/' :: '*' :: (head ++ ['*', '/'])) after
                    (.block fun found => closed (found.trans (List.prefix_append head _).isInfix))
                    rest
                  simpa using whole
          · exact letter first rest plain (shorter rest.length (by omega) rest rfl)

theorem codeFrom_block_of_open {content : Text} (unclosed : ¬['*', '/'] <:+: content) :
    (codeFrom .block content).2 = .block := by
  induction content with
  | nil => rfl
  | cons letter content inductionHypothesis =>
      have later := inductionHypothesis fun found =>
        unclosed (found.trans (List.suffix_cons letter content).isInfix)
      rw [codeFrom]
      · split
        · exact later
        · exact later
      · rintro tail rfl rfl
        exact unclosed ⟨[], tail, rfl⟩

theorem EndsInside.cons {letter : Char} {rest : Text} (plain : ¬StartsComment (letter :: rest))
    (inside : EndsInside rest) : EndsInside (letter :: rest) := by
  obtain ⟨before, after, rfl, code, unclosed⟩ := inside
  exact ⟨letter :: before, after, rfl, .letter plain code, unclosed⟩

theorem EndsInside.comment_append {comment rest : Text} (complete : IsComment comment)
    (inside : EndsInside rest) : EndsInside (comment ++ rest) := by
  obtain ⟨before, after, rfl, code, unclosed⟩ := inside
  exact ⟨comment ++ before, after, (List.append_assoc ..).symm, .comment complete code, unclosed⟩

/-- A comment is open where the code of the text breaks off inside a block comment. -/
theorem endsInside_iff {text : Text} : EndsInside text ↔ (codeFrom .code text).2 = .block := by
  constructor
  · rintro ⟨before, after, rfl, code, unclosed⟩
    obtain ⟨run, same⟩ := code.codeFrom
    rw [same]
    exact codeFrom_block_of_open unclosed
  · induction text using commentwise with
    | nil =>
        intro ends
        contradiction
    | letter letter rest plain inductionHypothesis =>
        intro ends
        have known := plain
        rw [startsComment_cons, not_and, not_or] at known
        rw [codeFrom_code_cons known] at ends
        exact (inductionHypothesis ends).cons plain
    | comment comment rest complete inductionHypothesis =>
        intro ends
        obtain ⟨gap, _, same⟩ := (Gap.comment complete).codeFrom_append
        rw [same] at ends
        exact (inductionHypothesis ends).comment_append complete
    | block content unclosed => exact fun _ => ⟨[], content, rfl, .nil _, unclosed⟩
    | line content solid =>
        intro ends
        have whole := codeFrom_line_solid solid []
        rw [List.append_nil] at whole
        rw [codeFrom, whole] at ends
        contradiction

/-- Lines that end outside comments are code and complete comments. -/
theorem inCode_of_isWhole {front : Text} (whole : IsWhole front) (outside : ¬EndsInside front)
    (rest : Text) : InCode front rest := by
  induction front using commentwise with
  | nil => exact .nil rest
  | letter letter tail plain inductionHypothesis =>
      cases tail with
      | nil =>
          obtain rfl := whole letter rfl
          exact .letter (by simp [startsComment_cons]) (.nil rest)
      | cons next tail =>
          rw [startsComment_cons] at plain
          refine .letter (by rwa [startsComment_cons]) (inductionHypothesis ?_ fun inside => ?_)
          · intro last found
            exact whole last (by rw [List.getLast?_cons_cons, found])
          · exact outside (inside.cons (by rwa [startsComment_cons]))
  | comment comment tail complete inductionHypothesis =>
      refine .comment complete (inductionHypothesis ?_ fun inside =>
        outside (inside.comment_append complete))
      intro last found
      exact whole last (by rw [List.getLast?_append, found, Option.some_or])
  | block content unclosed => exact absurd ⟨[], content, rfl, .nil _, unclosed⟩ outside
  | line content solid =>
      cases last : ('/' :: '/' :: content).getLast? with
      | none => simp at last
      | some letter =>
          obtain rfl := whole letter last
          have member := List.mem_of_getLast? last
          simp [solid] at member

namespace Scan

/-- A state with another comment. -/
def withComment (scan : Scan) (inside : Bool) (opened : Nat) : Scan :=
  { scan with inside := inside, opened := opened }

theorem push_withComment (line : Nat) (scan : Scan) (inside : Bool) (opened : Nat)
    (letter : Char) :
    push line (scan.withComment inside opened) letter =
      (push line scan letter).withComment inside opened := by
  unfold push withComment
  dsimp only
  split <;> rfl

/-- Code is read alike whatever the comments before it were. -/
theorem readCode_withComment (line : Nat) (scan : Scan) (inside : Bool) (opened : Nat)
    (code : Text) :
    readCode line (scan.withComment inside opened) code =
      ((readCode line scan code).1, (readCode line scan code).2.withComment inside opened) := by
  induction code generalizing scan with
  | nil => rfl
  | cons letter code inductionHypothesis =>
      have depth : (scan.withComment inside opened).depth = scan.depth := rfl
      rw [readCode, readCode, depth]
      split
      · have later := inductionHypothesis { scan with pending := [] }
        change (_ :: (readCode line (withComment { scan with pending := [] } inside opened) code).1,
          (readCode line (withComment { scan with pending := [] } inside opened) code).2) = _
        rw [later]
        rfl
      · rw [push_withComment, inductionHypothesis]

theorem opened_readLine (line : Nat) (scan : Scan) (raw : Text) :
    (scan.readLine line raw).2.opened =
      if !scan.inside && (withoutComments scan.inside raw).2 then line else scan.opened := by
  rw [readLine_eq, readStripped]
  split
  · rfl
  · rw [enter]
    change (push line (readCode line (scan.withComment _ _) _).2 ' ').opened = _
    rw [readCode_withComment, push_withComment]
    rfl

/-- Code holds nothing but statements. -/
theorem eq_statement_of_mem_readCode {line : Nat} {scan : Scan} {code : Text} {event : Event}
    (member : event ∈ (readCode line scan code).1) :
    ∃ start text, event = .statement start text := by
  induction code generalizing scan with
  | nil => simp [readCode] at member
  | cons letter code inductionHypothesis =>
      rw [readCode] at member
      split at member
      · rcases List.mem_cons.1 member with rfl | member
        · exact ⟨_, _, rfl⟩
        · exact inductionHypothesis member
      · exact inductionHypothesis member

/-- The lines of a text hold statements and inclusions. -/
theorem eq_of_mem_readLines {line : Nat} {scan : Scan} {entries : List Text} {event : Event}
    (member : event ∈ (readLines line scan entries).1) :
    (∃ start text, event = .statement start text) ∨
      ∃ start target, event = .inclusion start target := by
  induction entries generalizing line scan with
  | nil => simp [readLines] at member
  | cons raw entries inductionHypothesis =>
      rcases List.mem_append.1 member with member | member
      · rw [readLine_eq, readStripped] at member
        split at member
        · obtain ⟨target, _, rfl⟩ := Option.map_eq_some_iff.1 (Option.mem_toList.1 member)
          exact .inr ⟨_, target, rfl⟩
        · exact .inl (eq_statement_of_mem_readCode member)
      · exact inductionHypothesis member

/-- The events of the lines of a text and the state behind them. -/
def reading (source : Text) : List Event × Scan := initial.readLines 1 (lines source)

/-- The last line is read behind those in front of it. -/
theorem reading_append {front line ending : Text} (whole : IsWhole front)
    (isLine : IsLine line ending) :
    reading (front ++ (line ++ ending)) =
      ((reading front).1 ++ ((final front).readLine (front.count '\n' + 1) line).1,
        ((final front).readLine (front.count '\n' + 1) line).2) := by
  rw [reading, whole.lines_append, isLine.lines_eq, readLines_append, whole.length_lines,
    Nat.add_comm]
  simp only [readLines, List.append_nil]
  rfl

theorem final_append {front line ending : Text} (whole : IsWhole front)
    (isLine : IsLine line ending) :
    final (front ++ (line ++ ending)) = ((final front).readLine (front.count '\n' + 1) line).2 :=
  show (reading _).2 = _ by rw [reading_append whole isLine]

theorem inside_readLine (line : Nat) (scan : Scan) (raw : Text) :
    (scan.readLine line raw).2.inside = (withoutComments scan.inside raw).2 := by
  rw [readLine_eq, readStripped]
  split
  · rfl
  · rw [inside_push, inside_readCode]
    rfl

theorem inside_readLines (line : Nat) (scan : Scan) (entries : List Text) :
    (readLines line scan entries).2.inside = (linesCode scan.inside entries).2 := by
  induction entries generalizing line scan with
  | nil => rfl
  | cons raw entries inductionHypothesis =>
      rw [readLines, linesCode, ← inside_readLine line]
      exact inductionHypothesis (line + 1) _

/-- The state behind a text tells whether the text ends inside a block comment. -/
theorem inside_final_iff {text : Text} : (final text).inside = true ↔ EndsInside text := by
  rw [endsInside_iff]
  by_cases filled : text = []
  · subst filled
    decide
  · obtain ⟨_, leads⟩ := respaced_linesCode false filled
    rw [final, inside_readLines]
    change LeadsTo (codeFrom .code text).2 _ at leads
    change (linesCode false (lines text)).2 = true ↔ _
    generalize (codeFrom .code text).2 = place at leads ⊢
    generalize (linesCode false (lines text)).2 = inside at leads ⊢
    cases leads <;> decide

end Scan

end DataSegment.Header
