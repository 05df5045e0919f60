import DataSegment.Proofs.Header.Comments
import DataSegment.Proofs.Header.Respacing

namespace DataSegment.Header

open Text

/-- The first text leads from the start of a line, which can be inside a comment, to code when the
second one stands behind it. -/
inductive Reaches : Bool → Text → Text → Prop where
  | here (rest : Text) : Reaches false [] rest
  | letter {letter : Char} {before rest : Text}
      (plain : ¬StartsComment (letter :: (before ++ rest)))
      (later : Reaches false before rest) : Reaches false (letter :: before) rest
  | opening {before rest : Text} (later : Reaches true before rest) :
      Reaches false ('/' :: '*' :: before) rest
  | inside {letter : Char} {before rest : Text}
      (goes : letter = '*' → (before ++ rest).head? ≠ some '/')
      (later : Reaches true before rest) : Reaches true (letter :: before) rest
  | closing {before rest : Text} (later : Reaches false before rest) :
      Reaches true ('*' :: '/' :: before) rest

theorem withoutComments_code_cons {letter : Char} {rest : Text}
    (plain : ¬StartsComment (letter :: rest)) :
    withoutComments false (letter :: rest) =
      (letter :: (withoutComments false rest).1, (withoutComments false rest).2) := by
  cases rest with
  | nil => rfl
  | cons next rest =>
      simp only [startsComment_cons, List.head?_cons, Option.some.injEq, not_and, not_or] at plain
      rw [withoutComments, if_neg (by simp), if_neg fun line => (plain line.1).1 line.2,
        if_neg fun block => (plain block.1).2 block.2]

theorem withoutComments_block_cons {letter : Char} {rest : Text}
    (goes : letter = '*' → rest.head? ≠ some '/') :
    withoutComments true (letter :: rest) = withoutComments true rest := by
  cases rest with
  | nil => rfl
  | cons next rest =>
      rw [withoutComments, if_pos rfl, if_neg fun closes => goes closes.1 (by rw [closes.2]; rfl)]

/-- A character of the code of a line is found in the line, in front of the same code. -/
theorem exists_reaches {inside : Bool} {line first rest : Text} {letter : Char}
    (solid : isWhite letter = false)
    (code : (withoutComments inside line).1 = first ++ letter :: rest) :
    ∃ before after, line = before ++ letter :: after ∧ Reaches inside before (letter :: after) ∧
      ¬StartsComment (letter :: after) ∧
      (withoutComments false (letter :: after)).1 = letter :: rest := by
  fun_induction withoutComments inside line generalizing first with
  | case1 inside => simp at code
  | case2 inside other =>
      cases inside with
      | true => simp at code
      | false =>
          have single : [other] = first ++ letter :: rest := code
          cases first with
          | cons head first => simp at single
          | nil =>
              obtain ⟨rfl, rfl⟩ := List.cons.inj single
              exact ⟨[], [], rfl, .here _, by simp [startsComment_cons], rfl⟩
  | case3 other next tail closes stripped =>
      rename_i inductionHypothesis
      obtain ⟨rfl, rfl⟩ := closes
      cases first with
      | nil =>
          obtain ⟨rfl, _⟩ := List.cons.inj code
          exact absurd solid (by decide)
      | cons head first =>
          obtain ⟨before, after, rfl, reaches, found⟩ :=
            inductionHypothesis (List.cons.inj code).2
          exact ⟨'*' :: '/' :: before, after, rfl, .closing reaches, found⟩
  | case4 other next tail goes inductionHypothesis =>
      obtain ⟨before, after, same, reaches, found⟩ := inductionHypothesis code
      rw [same]
      refine ⟨other :: before, after, rfl, .inside ?_ reaches, found⟩
      rw [← same]
      exact fun star slash => goes ⟨star, Option.some.inj slash⟩
  | case5 inside other next tail outside line => simp at code
  | case6 inside other next tail outside line block inductionHypothesis =>
      obtain rfl : inside = false := by simpa using outside
      obtain ⟨rfl, rfl⟩ := block
      obtain ⟨before, after, rfl, reaches, found⟩ := inductionHypothesis code
      exact ⟨'/' :: '*' :: before, after, rfl, .opening reaches, found⟩
  | case7 inside other next tail outside line block stripped =>
      rename_i inductionHypothesis
      obtain rfl : inside = false := by simpa using outside
      have plain : ¬StartsComment (other :: next :: tail) := by
        simp only [startsComment_cons, List.head?_cons, Option.some.injEq]
        rintro ⟨slash, rfl | rfl⟩
        · exact line ⟨slash, rfl⟩
        · exact block ⟨slash, rfl⟩
      cases first with
      | nil =>
          obtain ⟨rfl, later⟩ := List.cons.inj code
          refine ⟨[], next :: tail, rfl, .here _, plain, ?_⟩
          rw [withoutComments_code_cons plain]
          exact congrArg (List.cons other) later
      | cons head first =>
          obtain ⟨before, after, same, reaches, found⟩ :=
            inductionHypothesis (List.cons.inj code).2
          rw [same] at plain ⊢
          exact ⟨other :: before, after, rfl, .letter plain reaches, found⟩

namespace Reaches

/-- The code in front of a place stays the same when the line is cut behind that place. -/
theorem exists_withoutComments {inside : Bool} {before rest : Text}
    (reaches : Reaches inside before rest) :
    ∃ first, ∀ other, other <+: rest →
      withoutComments inside (before ++ other) =
        (first ++ (withoutComments false other).1, (withoutComments false other).2) := by
  induction reaches with
  | here => exact ⟨[], fun _ _ => rfl⟩
  | @letter letter before rest plain _ inductionHypothesis =>
      obtain ⟨first, same⟩ := inductionHypothesis
      refine ⟨letter :: first, fun other ⟨more, parts⟩ => ?_⟩
      have short : ¬StartsComment (letter :: (before ++ other)) := by
        intro starts
        apply plain
        rw [← parts, ← List.append_assoc]
        exact starts.append more
      rw [List.cons_append, withoutComments_code_cons short, same other ⟨more, parts⟩]
      rfl
  | opening _ inductionHypothesis =>
      obtain ⟨first, same⟩ := inductionHypothesis
      refine ⟨first, fun other found => ?_⟩
      rw [List.cons_append, List.cons_append, withoutComments, if_neg (by simp), if_neg (by simp),
        if_pos ⟨rfl, rfl⟩, same other found]
  | @inside letter before rest goes _ inductionHypothesis =>
      obtain ⟨first, same⟩ := inductionHypothesis
      refine ⟨first, fun other ⟨more, parts⟩ => ?_⟩
      have short : letter = '*' → (before ++ other).head? ≠ some '/' := by
        intro star slash
        apply goes star
        rw [← parts, ← List.append_assoc, List.head?_append, slash]
        rfl
      rw [List.cons_append, withoutComments_block_cons short, same other ⟨more, parts⟩]
  | closing _ inductionHypothesis =>
      obtain ⟨first, same⟩ := inductionHypothesis
      refine ⟨' ' :: first, fun other found => ?_⟩
      rw [List.cons_append, List.cons_append, withoutComments, if_pos rfl, if_pos ⟨rfl, rfl⟩,
        same other found]
      rfl

/-- Outside comments a line leads through code. Inside a comment it leads through the end of the
comment and then through code. -/
theorem inCode {inside : Bool} {before rest : Text} (reaches : Reaches inside before rest) :
    (inside = false → InCode before rest) ∧
      (inside = true → ∃ content later, before = content ++ '*' :: '/' :: later ∧
        ¬['*', '/'] <:+: content ∧ InCode later rest) := by
  induction reaches with
  | here rest => exact ⟨fun _ => .nil rest, fun same => absurd same (by simp)⟩
  | letter plain _ inductionHypothesis =>
      exact ⟨fun _ => .letter plain (inductionHypothesis.1 rfl), fun same => absurd same (by simp)⟩
  | opening _ inductionHypothesis =>
      obtain ⟨content, later, rfl, closed, code⟩ := inductionHypothesis.2 rfl
      have complete := InCode.comment (.block closed) code
      exact ⟨fun _ => by simpa using complete, fun same => absurd same (by simp)⟩
  | @inside letter before rest goes _ inductionHypothesis =>
      obtain ⟨content, later, rfl, closed, code⟩ := inductionHypothesis.2 rfl
      refine ⟨fun same => absurd same (by simp), fun _ =>
        ⟨letter :: content, later, rfl, fun found => ?_, code⟩⟩
      rcases List.infix_cons_iff.1 found with here | behind
      · obtain ⟨rfl, first⟩ := List.cons_prefix_cons.1 here
        obtain ⟨more, rfl⟩ := first
        exact goes rfl rfl
      · exact closed behind
  | @closing before rest _ inductionHypothesis =>
      exact ⟨fun same => absurd same (by simp), fun _ =>
        ⟨[], before, rfl, by simp, inductionHypothesis.1 rfl⟩⟩

end Reaches

/-- A line can be cut in front of a character of its code, and behind it. -/
theorem exists_cut {inside : Bool} {line first rest : Text} {letter : Char}
    (solid : isWhite letter = false)
    (code : (withoutComments inside line).1 = first ++ letter :: rest) :
    ∃ before after, line = before ++ letter :: after ∧ Reaches inside before (letter :: after) ∧
      ¬StartsComment (letter :: after) ∧ withoutComments inside before = (first, false) ∧
      withoutComments inside (before ++ [letter]) = (first ++ [letter], false) := by
  obtain ⟨before, after, rfl, reaches, plain, found⟩ := exists_reaches solid code
  obtain ⟨front, same⟩ := reaches.exists_withoutComments
  have whole := same (letter :: after) (List.prefix_refl _)
  rw [whole, found] at code
  obtain rfl := List.append_cancel_right code
  have none := same [] (List.nil_prefix)
  have single := same [letter] ⟨after, rfl⟩
  rw [List.append_nil] at none
  refine ⟨before, after, rfl, reaches, plain, ?_, single⟩
  rw [none, withoutComments, List.append_nil]

/-- Lines and the start of the line behind them are code and complete comments. -/
theorem inCode_append {front before rest : Text} (whole : IsWhole front)
    (reaches : Reaches (Scan.final front).inside before rest) : InCode (front ++ before) rest := by
  cases inside : (Scan.final front).inside with
  | false =>
      have outside : ¬EndsInside front := by
        rw [← Scan.inside_final_iff, inside]
        decide
      exact (inCode_of_isWhole whole outside (before ++ rest)).trans (reaches.inCode.1 inside)
  | true =>
      obtain ⟨start, opened, rfl, code, unclosed⟩ := Scan.inside_final_iff.1 inside
      obtain ⟨content, later, rfl, closed, behind⟩ := reaches.inCode.2 inside
      have both : ¬['*', '/'] <:+: opened ++ content := by
        intro found
        rcases infix_pair_append found with first | second | ⟨last, _⟩
        · exact unclosed first
        · exact closed second
        · have star := whole '*' (by
            rw [List.getLast?_append, List.getLast?_cons, List.getLast?_cons, last]
            rfl)
          contradiction
      have comment := InCode.comment (.block both) behind
      have first : InCode start
          (('/' :: '*' :: ((opened ++ content) ++ ['*', '/'])) ++ later ++ rest) :=
        code.of_head? rfl
      simpa using first.trans comment

namespace Scan

/-- Two states agree about the statement that is open. -/
structure SameStatement (scan other : Scan) : Prop where
  start : scan.start = other.start
  first : scan.pending.getLast? = other.pending.getLast?
  text : trim scan.pending.reverse = trim other.pending.reverse

/-- A space behind a line changes nothing about the open statement but its last character. -/
theorem sameStatement_push_space (line : Nat) (scan : Scan) :
    SameStatement (push line scan ' ') scan := by
  cases empty : scan.pending with
  | nil =>
      rw [push_white empty (by decide)]
      exact ⟨rfl, rfl, rfl⟩
  | cons letter rest =>
      have pushed : push line scan ' ' = { scan with pending := ' ' :: scan.pending } := by
        simp [push, empty]
      rw [pushed]
      refine ⟨rfl, ?_, ?_⟩
      · rw [empty, List.getLast?_cons_cons]
      · rw [List.reverse_cons, trim_append_white (by decide)]

/-- A line that is no directive is read as its code. -/
theorem readLine_code (line : Nat) {scan : Scan} {raw : Text}
    (undirected : scan.isDirective (withoutComments scan.inside raw).1 = false) :
    (scan.readLine line raw).1 = (readCode line scan (withoutComments scan.inside raw).1).1 ∧
      SameStatement (scan.readLine line raw).2
        (readCode line scan (withoutComments scan.inside raw).1).2 := by
  rw [readLine_eq]
  generalize withoutComments scan.inside raw = code at undirected ⊢
  have entered : enter line scan code.2 =
      scan.withComment code.2 (if !scan.inside && code.2 then line else scan.opened) := rfl
  have same : (enter line scan code.2).isDirective code.1 = false := undirected
  rw [readStripped, same, entered, readCode_withComment, if_neg (by simp)]
  dsimp only
  rw [push_withComment]
  obtain ⟨start, first, text⟩ := sameStatement_push_space line (readCode line scan code.1).2
  exact ⟨rfl, start, first, text⟩

/-- A text is read up to a state that agrees with another one about the open statement. -/
structure ReadsTo (source : Text) (events : List Event) (scan : Scan) : Prop where
  events : (reading source).1 = events
  outside : (final source).inside = false
  same : SameStatement (final source) scan

/-- A text that ends in a line is read as the lines in front of it and its code. -/
theorem readsTo_append {front before code : Text} (whole : IsWhole front) (solid : '\n' ∉ before)
    (stripped : withoutComments (final front).inside before = (code, false))
    (undirected : (final front).isDirective code = false) :
    ReadsTo (front ++ before)
      ((reading front).1 ++ (readCode (front.count '\n' + 1) (final front) code).1)
      (readCode (front.count '\n' + 1) (final front) code).2 := by
  by_cases filled : before = []
  · subst filled
    obtain ⟨rfl, outside⟩ := Prod.mk.inj stripped
    rw [List.append_nil, readCode, List.append_nil]
    exact ⟨rfl, outside, rfl, rfl, rfl⟩
  · have isLine : IsLine before [] := .last solid filled
    have read := reading_append whole isLine
    have state := final_append whole isLine
    have outside := inside_readLine (front.count '\n' + 1) (final front) before
    have plain : (final front).isDirective
        (withoutComments (final front).inside before).1 = false := by rwa [stripped]
    obtain ⟨events, same⟩ := readLine_code (front.count '\n' + 1) plain
    rw [List.append_nil] at read state
    rw [stripped] at outside events same
    exact ⟨by rw [read, events], by rw [state, outside], by rw [state]; exact same⟩

/-- A part of the code in front of the rest of it is a directive only when all of it is. -/
theorem isDirective_of_append {scan : Scan} {first rest : Text}
    (undirected : scan.isDirective (first ++ rest) = false) : scan.isDirective first = false := by
  unfold isDirective at undirected ⊢
  rw [trimStart, List.dropWhile_append] at undirected
  rw [trimStart]
  cases trimmed : first.dropWhile isWhite with
  | nil => simp
  | cons letter tail =>
      rw [trimmed] at undirected
      exact undirected

/-- Reading stops alike in front of a character of the code of a line and behind it. -/
theorem exists_readsTo {front line first rest : Text} {letter : Char} (whole : IsWhole front)
    (solid : '\n' ∉ line) (black : isWhite letter = false)
    (code : (withoutComments (final front).inside line).1 = first ++ letter :: rest)
    (undirected : (final front).isDirective (withoutComments (final front).inside line).1 = false) :
    ∃ before after, line = before ++ letter :: after ∧
      InCode (front ++ before) (letter :: after) ∧ ¬StartsComment (letter :: after) ∧
      ReadsTo (front ++ before)
        ((reading front).1 ++ (readCode (front.count '\n' + 1) (final front) first).1)
        (readCode (front.count '\n' + 1) (final front) first).2 ∧
      ReadsTo (front ++ (before ++ [letter]))
        ((reading front).1 ++ (readCode (front.count '\n' + 1) (final front) (first ++ [letter])).1)
        (readCode (front.count '\n' + 1) (final front) (first ++ [letter])).2 := by
  obtain ⟨before, after, rfl, reaches, plain, none, single⟩ := exists_cut black code
  have early : '\n' ∉ before := fun member => solid (by simp [member])
  have own : '\n' ≠ letter := fun same => solid (by rw [same]; simp)
  have longer : (final front).isDirective ((first ++ [letter]) ++ rest) = false := by
    rw [code] at undirected
    simpa using undirected
  have shorter : (final front).isDirective first = false :=
    isDirective_of_append (isDirective_of_append longer)
  exact ⟨before, after, rfl, inCode_append whole reaches, plain,
    readsTo_append whole early none shorter,
    readsTo_append whole (by simp [early, own]) single (isDirective_of_append longer)⟩

section

variable {line : Nat} {scan : Scan} {letter : Char}

/-- A semicolon outside braces ends the statement. -/
theorem readCode_ends (ends : letter = ';' ∧ scan.depth = 0) (code : Text) :
    readCode line scan (letter :: code) =
      (.statement scan.start scan.pending.reverse ::
          (readCode line { scan with pending := [] } code).1,
        (readCode line { scan with pending := [] } code).2) := by
  rw [readCode, if_pos ends]

theorem readCode_goes (goes : ¬(letter = ';' ∧ scan.depth = 0)) (code : Text) :
    readCode line scan (letter :: code) = readCode line (push line scan letter) code := by
  rw [readCode, if_neg goes]

/-- A character belongs to the statement that is open, or a statement starts with it. -/
theorem getLast?_push {other : Char}
    (last : (push line scan other).pending.getLast? = some letter) :
    (scan.pending.getLast? = some letter ∧ (push line scan other).start = scan.start) ∨
      (scan.pending = [] ∧ other = letter ∧ isWhite letter = false ∧
        (push line scan other).start = line) := by
  cases white : isWhite other with
  | true =>
      cases empty : scan.pending with
      | nil =>
          rw [push_white empty white, empty] at last
          contradiction
      | cons head rest =>
          have pushed : (push line scan other).pending = other :: head :: rest ∧
              (push line scan other).start = scan.start := by
            simp [push, empty]
          rw [pushed.1, List.getLast?_cons_cons] at last
          exact .inl ⟨last, pushed.2⟩
  | false =>
      rw [push_solid white] at last ⊢
      cases empty : scan.pending with
      | nil =>
          rw [empty] at last
          obtain rfl := Option.some.inj last
          exact .inr ⟨rfl, rfl, white, rfl⟩
      | cons head rest =>
          rw [empty, List.getLast?_cons_cons] at last
          exact .inl ⟨last, rfl⟩

/-- An open statement started earlier, or it starts in the code with its first character. -/
theorem exists_start_readCode {code : Text}
    (last : (readCode line scan code).2.pending.getLast? = some letter) :
    (scan.pending.getLast? = some letter ∧ (readCode line scan code).1 = [] ∧
        (readCode line scan code).2.start = scan.start) ∨
      ∃ first rest, code = first ++ letter :: rest ∧ isWhite letter = false ∧
        (readCode line scan first).2.pending = [] ∧
        ¬(letter = ';' ∧ (readCode line scan first).2.depth = 0) ∧
        (readCode line scan code).1 = (readCode line scan first).1 ∧
        (readCode line scan code).2.start = line := by
  induction code generalizing scan with
  | nil => exact .inl ⟨last, rfl, rfl⟩
  | cons other code inductionHypothesis =>
      by_cases ends : other = ';' ∧ scan.depth = 0
      · rw [readCode_ends ends] at last ⊢
        obtain ⟨empty, _⟩ | ⟨first, rest, rfl, solid, complete, goes, events, start⟩ :=
          inductionHypothesis last
        · contradiction
        · refine .inr ⟨other :: first, rest, rfl, solid, ?_⟩
          rw [readCode_ends ends]
          exact ⟨complete, goes, congrArg (List.cons _) events, start⟩
      · rw [readCode_goes ends] at last ⊢
        obtain ⟨earlier, events, start⟩ |
          ⟨first, rest, rfl, solid, complete, goes, events, start⟩ := inductionHypothesis last
        · rcases getLast?_push earlier with ⟨open', same⟩ | ⟨empty, rfl, solid, here⟩
          · exact .inl ⟨open', events, start.trans same⟩
          · exact .inr ⟨[], code, rfl, solid, empty, ends, events, start.trans here⟩
        · refine .inr ⟨other :: first, rest, rfl, solid, ?_⟩
          rw [readCode_goes ends]
          exact ⟨complete, goes, events, start⟩

/-- A statement ends at a semicolon of the code, behind its own characters. -/
theorem exists_end_readCode {start : Nat} {code text : Text} {earlier later : List Event}
    (found : (readCode line scan code).1 = earlier ++ .statement start text :: later) :
    ∃ first rest, code = first ++ ';' :: rest ∧ (readCode line scan first).1 = earlier ∧
      (readCode line scan first).2.start = start ∧
      (readCode line scan first).2.pending.reverse = text := by
  induction code generalizing scan earlier with
  | nil => simp [readCode] at found
  | cons other code inductionHypothesis =>
      by_cases ends : other = ';' ∧ scan.depth = 0
      · rw [readCode_ends ends] at found
        cases earlier with
        | nil =>
            obtain ⟨rfl, rfl⟩ := Event.statement.inj (List.cons.inj found).1
            exact ⟨[], code, by rw [ends.1]; rfl, rfl, rfl, rfl⟩
        | cons event earlier =>
            obtain ⟨rfl, behind⟩ := List.cons.inj found
            obtain ⟨first, rest, rfl, before, same⟩ := inductionHypothesis behind
            refine ⟨other :: first, rest, rfl, ?_⟩
            rw [readCode_ends ends]
            exact ⟨congrArg (List.cons _) before, same⟩
      · rw [readCode_goes ends] at found
        obtain ⟨first, rest, rfl, same⟩ := inductionHypothesis found
        refine ⟨other :: first, rest, rfl, ?_⟩
        rw [readCode_goes ends]
        exact same

end

end Scan

end DataSegment.Header
