import DataSegment.Proofs.Header.Respacing

namespace DataSegment.Header

open Text

/-- A complete comment. A line comment includes the line feed that ends it. -/
inductive IsComment : Text → Prop where
  | block {content : Text} (closed : ¬['*', '/'] <:+: content) :
      IsComment ('/' :: '*' :: (content ++ ['*', '/']))
  | line {content : Text} (solid : '\n' ∉ content) :
      IsComment ('/' :: '/' :: (content ++ ['\n']))

/-- What can stand between two words of a header. -/
inductive Gap : Text → Prop where
  | white {letter : Char} (white : isWhite letter = true) : Gap [letter]
  | comment {text : Text} (comment : IsComment text) : Gap text
  | append {first second : Text} (left : Gap first) (right : Gap second) : Gap (first ++ second)

/-- Where a character of a header stands. -/
inductive Place where
  | code
  | block
  | line
  deriving DecidableEq, Repr

/-- Puts a text in front of code. -/
def prepend (text : Text) (code : Text × Place) : Text × Place := (text ++ code.1, code.2)

theorem prepend_prepend (first second : Text) (code : Text × Place) :
    prepend first (prepend second code) = prepend (first ++ second) code := by
  simp [prepend]

/-- A line feed is a space in the code. -/
def flatten (letter : Char) : Char := if letter = '\n' then ' ' else letter

/-- The code of a text and the place behind it. A block comment leaves one space, besides those
for its line feeds. -/
def codeFrom : Place → Text → Text × Place
  | place, [] => ([], place)
  | .line, letter :: rest =>
      if letter = '\n' then prepend [' '] (codeFrom .code rest) else codeFrom .line rest
  | .block, '*' :: '/' :: rest => prepend [' '] (codeFrom .code rest)
  | .block, letter :: rest =>
      if letter = '\n' then prepend [' '] (codeFrom .block rest) else codeFrom .block rest
  | .code, '/' :: '/' :: rest => codeFrom .line rest
  | .code, '/' :: '*' :: rest => codeFrom .block rest
  | .code, letter :: rest => prepend [flatten letter] (codeFrom .code rest)

theorem codeFrom_line_solid {content : Text} (solid : '\n' ∉ content) (rest : Text) :
    codeFrom .line (content ++ rest) = codeFrom .line rest := by
  induction content with
  | nil => rfl
  | cons letter content inductionHypothesis =>
      simp only [List.mem_cons, not_or] at solid
      rw [List.cons_append, codeFrom, if_neg (Ne.symm solid.1), inductionHypothesis solid.2]

theorem codeFrom_line_newline (rest : Text) :
    codeFrom .line ('\n' :: rest) = prepend [' '] (codeFrom .code rest) := by
  rw [codeFrom, if_pos rfl]

/-- The code of a block comment is white space. -/
theorem codeFrom_block_append {content : Text} (closed : ¬['*', '/'] <:+: content) :
    ∃ run, IsBlank run ∧ ∀ rest,
      codeFrom .block (content ++ '*' :: '/' :: rest) = prepend run (codeFrom .code rest) := by
  induction content with
  | nil => exact ⟨[' '], .singleton (by decide), fun _ => rfl⟩
  | cons letter content inductionHypothesis =>
      obtain ⟨run, blank, same⟩ := inductionHypothesis fun found =>
        closed (found.trans (List.suffix_cons letter content).isInfix)
      -- A star of the content closes nothing. Behind the last one stands the star of the ending.
      have goes (rest : Text) : ∀ tail, letter = '*' →
          content ++ '*' :: '/' :: rest = '/' :: tail → False := by
        rintro tail rfl next
        cases content with
        | nil => exact absurd (List.cons.inj next).1 (by decide)
        | cons other content =>
            obtain rfl := (List.cons.inj next).1
            exact closed ⟨[], content, rfl⟩
      by_cases ends : letter = '\n'
      · refine ⟨' ' :: run, .append (.singleton (by decide)) blank, fun rest => ?_⟩
        rw [List.cons_append, codeFrom, same, if_pos ends, prepend_prepend]
        · rfl
        · exact goes rest
      · refine ⟨run, blank, fun rest => ?_⟩
        rw [List.cons_append, codeFrom, same, if_neg ends]
        exact goes rest

theorem codeFrom_block_cons {letter : Char} {rest : Text} (solid : letter ≠ '\n')
    (goes : letter = '*' → rest.head? ≠ some '/') :
    codeFrom .block (letter :: rest) = codeFrom .block rest := by
  rw [codeFrom, if_neg solid]
  rintro tail rfl rfl
  exact goes rfl rfl

/-- A character is code unless it starts a comment. -/
theorem codeFrom_code_cons {letter : Char} {rest : Text}
    (plain : letter = '/' → rest.head? ≠ some '/' ∧ rest.head? ≠ some '*') :
    codeFrom .code (letter :: rest) = prepend [flatten letter] (codeFrom .code rest) := by
  rw [codeFrom]
  · rintro tail rfl rfl
    exact (plain rfl).1 rfl
  · rintro tail rfl rfl
    exact (plain rfl).2 rfl

theorem isWhite_flatten (letter : Char) : isWhite (flatten letter) = isWhite letter := by
  unfold flatten
  split
  · rename_i ends
    rw [ends]
    decide
  · rfl

theorem isBlank_map_flatten {run : Text} (blank : IsBlank run) : IsBlank (run.map flatten) where
  filled := by simpa using blank.filled
  white letter member := by
    obtain ⟨other, listed, rfl⟩ := List.mem_map.1 member
    rw [isWhite_flatten, blank.white other listed]

theorem codeFrom_plain_append {first : Text} (plain : '/' ∉ first) (rest : Text) :
    codeFrom .code (first ++ rest) = prepend (first.map flatten) (codeFrom .code rest) := by
  induction first with
  | nil => rfl
  | cons letter first inductionHypothesis =>
      simp only [List.mem_cons, not_or] at plain
      rw [List.cons_append, codeFrom_code_cons fun same => absurd same.symm plain.1,
        inductionHypothesis plain.2, prepend_prepend]
      rfl

theorem slash_not_white {run : Text} (white : ∀ letter ∈ run, isWhite letter = true) :
    '/' ∉ run := by
  intro member
  exact absurd (white '/' member) (by decide)

/-- The code of a gap is white space. -/
theorem Gap.codeFrom_append {gap : Text} (isGap : Gap gap) :
    ∃ run, IsBlank run ∧
      ∀ rest, codeFrom .code (gap ++ rest) = prepend run (codeFrom .code rest) := by
  induction isGap with
  | white white =>
      have blank := IsBlank.singleton white
      exact ⟨_, isBlank_map_flatten blank, codeFrom_plain_append (slash_not_white blank.white)⟩
  | comment comment =>
      cases comment with
      | block closed =>
          obtain ⟨run, blank, same⟩ := codeFrom_block_append closed
          refine ⟨run, blank, fun rest => ?_⟩
          rw [List.cons_append, List.cons_append, codeFrom, List.append_assoc]
          exact same rest
      | line solid =>
          refine ⟨[' '], .singleton (by decide), fun rest => ?_⟩
          rw [List.cons_append, List.cons_append, codeFrom, List.append_assoc,
            List.singleton_append, codeFrom_line_solid solid, codeFrom_line_newline]
  | append _ _ leftHypothesis rightHypothesis =>
      obtain ⟨run, blank, first⟩ := leftHypothesis
      obtain ⟨other, also, second⟩ := rightHypothesis
      refine ⟨run ++ other, blank.append also, fun rest => ?_⟩
      rw [List.append_assoc, first, second, prepend_prepend]

/-- The code of a text is respaced when gaps take the place of its white space. -/
theorem respaced_codeFrom {source other : Text} (plain : '/' ∉ source)
    (relaid : Relaid Gap source other) :
    Respaced (codeFrom .code source).1 (codeFrom .code other).1 ∧
      (codeFrom .code other).2 = .code := by
  induction relaid with
  | nil => exact ⟨.nil, rfl⟩
  | @solid letter solid _ _ _ inductionHypothesis =>
      simp only [List.mem_cons, not_or] at plain
      obtain ⟨code, place⟩ := inductionHypothesis plain.2
      have first (rest : Text) : codeFrom .code (letter :: rest) =
          prepend [flatten letter] (codeFrom .code rest) :=
        codeFrom_code_cons fun same => absurd same.symm plain.1
      rw [first, first]
      exact ⟨.solid (by rwa [isWhite_flatten]) code, place⟩
  | blank blank gap _ inductionHypothesis =>
      rw [List.mem_append, not_or] at plain
      obtain ⟨code, place⟩ := inductionHypothesis plain.2
      obtain ⟨run, also, same⟩ := gap.codeFrom_append
      rw [codeFrom_plain_append plain.1, same]
      exact ⟨.blank (isBlank_map_flatten blank) also code, place⟩

theorem codeFrom_of_plain {source : Text} (plain : '/' ∉ source) :
    codeFrom .code source = (source.map flatten, .code) := by
  have whole := codeFrom_plain_append plain []
  rw [List.append_nil] at whole
  rw [whole]
  simp [codeFrom, prepend]

/-- Where a line starts. -/
def Place.ofInside (inside : Bool) : Place := if inside then .block else .code

/-- A place at the end of a line leads to the start of the next one. -/
inductive LeadsTo : Place → Bool → Prop where
  | code : LeadsTo .code false
  | line : LeadsTo .line false
  | block : LeadsTo .block true

theorem leadsTo_ofInside (inside : Bool) : LeadsTo (.ofInside inside) inside := by
  cases inside
  · exact .code
  · exact .block

theorem LeadsTo.codeFrom_newline {place : Place} {inside : Bool} (leads : LeadsTo place inside)
    (rest : Text) :
    codeFrom place ('\n' :: rest) = prepend [' '] (codeFrom (.ofInside inside) rest) := by
  cases leads with
  | code => exact codeFrom_code_cons (by simp)
  | line => exact codeFrom_line_newline rest
  | block =>
      rw [codeFrom, if_pos rfl]
      · rfl
      · simp

/-- The code of a line is what is left without its comments. Here `tail` starts with the end of
the line. -/
theorem codeFrom_line (inside : Bool) {line : Text} (solid : '\n' ∉ line) {tail : Text}
    (ends : ∀ letter, tail.head? = some letter → letter = '\n') :
    ∃ place, LeadsTo place (withoutComments inside line).2 ∧
      codeFrom (.ofInside inside) (line ++ tail) =
        prepend (withoutComments inside line).1 (codeFrom place tail) := by
  fun_induction withoutComments inside line with
  | case1 inside => exact ⟨_, leadsTo_ofInside inside, rfl⟩
  | case2 inside letter =>
      have other : letter ≠ '\n' := fun same => solid (by simp [same])
      have next {mark : Char} (mark' : mark ≠ '\n') : tail.head? ≠ some mark :=
        fun first => mark' (ends mark first)
      cases inside with
      | false =>
          refine ⟨.code, .code, ?_⟩
          change codeFrom .code (letter :: tail) = prepend [letter] (codeFrom .code tail)
          rw [codeFrom_code_cons fun _ => ⟨next (by decide), next (by decide)⟩, flatten,
            if_neg other]
      | true => exact ⟨.block, .block, codeFrom_block_cons other fun _ => next (by decide)⟩
  | case3 letter next rest closes code inductionHypothesis =>
      obtain ⟨rfl, rfl⟩ := closes
      have later : '\n' ∉ rest := fun member => solid (by simp [member])
      obtain ⟨place, leads, same⟩ := inductionHypothesis later
      refine ⟨place, leads, ?_⟩
      change codeFrom .block ('*' :: '/' :: (rest ++ tail)) = _
      rw [codeFrom]
      exact (congrArg (prepend [' ']) same).trans (prepend_prepend ..)
  | case4 letter next rest goes inductionHypothesis =>
      rw [List.mem_cons, not_or] at solid
      obtain ⟨place, leads, same⟩ := inductionHypothesis solid.2
      refine ⟨place, leads, ?_⟩
      rw [← same]
      refine codeFrom_block_cons (Ne.symm solid.1) fun star first => goes ⟨star, ?_⟩
      exact Option.some.inj first
  | case5 inside letter next rest outside line =>
      obtain rfl : inside = false := by simpa using outside
      obtain ⟨rfl, rfl⟩ := line
      have later : '\n' ∉ rest := fun member => solid (by simp [member])
      refine ⟨.line, .line, ?_⟩
      change codeFrom .code ('/' :: '/' :: (rest ++ tail)) = codeFrom .line tail
      rw [codeFrom, codeFrom_line_solid later]
  | case6 inside letter next rest outside line block inductionHypothesis =>
      obtain rfl : inside = false := by simpa using outside
      obtain ⟨rfl, rfl⟩ := block
      have later : '\n' ∉ rest := fun member => solid (by simp [member])
      obtain ⟨place, leads, same⟩ := inductionHypothesis later
      refine ⟨place, leads, ?_⟩
      rw [← same]
      rfl
  | case7 inside letter next rest outside line block code inductionHypothesis =>
      obtain rfl : inside = false := by simpa using outside
      rw [List.mem_cons, not_or] at solid
      obtain ⟨place, leads, same⟩ := inductionHypothesis solid.2
      have plain : letter = '/' → (next :: rest ++ tail).head? ≠ some '/' ∧
          (next :: rest ++ tail).head? ≠ some '*' := fun slash =>
        ⟨fun first => line ⟨slash, Option.some.inj first⟩,
          fun first => block ⟨slash, Option.some.inj first⟩⟩
      have first : codeFrom .code (letter :: (next :: rest ++ tail)) =
          prepend [letter] (codeFrom .code (next :: rest ++ tail)) := by
        rw [codeFrom_code_cons plain, flatten, if_neg (Ne.symm solid.1)]
      refine ⟨place, leads, first.trans ?_⟩
      exact (congrArg (prepend [letter]) same).trans (prepend_prepend ..)

/-- The code of lines with a space behind each, and whether the last one ends inside a block
comment. -/
def linesCode (inside : Bool) : List Text → Text × Bool
  | [] => ([], inside)
  | raw :: rest =>
      let code := withoutComments inside raw
      let later := linesCode code.2 rest
      (code.1 ++ ' ' :: later.1, later.2)

/-- The carriage return of a line ending is white space of the code, or in a comment. -/
theorem withoutComments_closeLine (inside : Bool) (line : Text) :
    ∃ tail, (tail = [] ∨ tail = ['\r']) ∧
      withoutComments inside line =
        ((withoutComments inside (closeLine line.reverse)).1 ++ tail,
          (withoutComments inside (closeLine line.reverse)).2) := by
  by_cases carriage : line.getLast? = some '\r'
  · obtain ⟨front, rfl⟩ := List.getLast?_eq_some_iff.1 carriage
    have closed : closeLine (front ++ ['\r']).reverse = front := by simp [closeLine]
    rw [closed]
    exact withoutComments_carriage inside front
  · rw [closeLine_reverse carriage]
    exact ⟨[], .inl rfl, by rw [List.append_nil]⟩

/-- A text is a last line, or a line with its ending before the rest of the text. -/
theorem linewise {motive : Text → Prop} (last : ∀ line, '\n' ∉ line → motive line)
    (more : ∀ line rest, '\n' ∉ line → motive rest → motive (line ++ '\n' :: rest))
    (text : Text) : motive text := by
  -- The induction is on what is still to be read, behind the line that has begun.
  suffices from' : ∀ line, '\n' ∉ line → motive (line ++ text) from from' [] (by simp)
  induction text with
  | nil => simpa using last
  | cons letter text inductionHypothesis =>
      intro line solid
      by_cases ends : letter = '\n'
      · subst ends
        exact more line text solid (inductionHypothesis [] (by simp))
      · have longer := inductionHypothesis (line ++ [letter]) (by simp [solid, Ne.symm ends])
        rwa [List.append_assoc] at longer

/-- Line by line a text has the same code up to its spacing. -/
theorem respaced_linesCode (inside : Bool) {text : Text} (filled : text ≠ []) :
    Respaced ((codeFrom (.ofInside inside) text).1 ++ [' ']) (linesCode inside (lines text)).1 ∧
      LeadsTo (codeFrom (.ofInside inside) text).2 (linesCode inside (lines text)).2 := by
  induction text using linewise generalizing inside with
  | last line solid =>
      obtain ⟨place, leads, same⟩ := @codeFrom_line inside line solid [] (by simp)
      rw [List.append_nil] at same
      rw [lines_eq_singleton solid filled, same]
      refine ⟨?_, leads⟩
      simpa [prepend, codeFrom, linesCode] using Respaced.refl _
  | more line rest solid inductionHypothesis =>
      obtain ⟨place, leads, same⟩ := @codeFrom_line inside line solid ('\n' :: rest) (by simp)
      rw [leads.codeFrom_newline, prepend_prepend] at same
      have cut : lines (line ++ '\n' :: rest) = closeLine line.reverse :: lines rest := by
        rw [lines, linesFrom_of_solid solid, List.append_nil, lines]
      obtain ⟨tail, carriage, kept⟩ := withoutComments_closeLine inside line
      -- The carriage return that the line loses goes into the space behind it.
      have ended : IsBlank (tail ++ [' ']) := by
        rcases carriage with rfl | rfl
        · exact .singleton (by decide)
        · exact .append (.singleton (by decide)) (.singleton (by decide))
      have space : IsBlank [' '] := .singleton (by decide)
      rw [kept] at same
      rw [cut, same, linesCode]
      generalize withoutComments inside (closeLine line.reverse) = code at *
      cases rest with
      | nil =>
          refine ⟨?_, leadsTo_ofInside _⟩
          have spaced := (Respaced.refl code.1).append (Respaced.of_blank (ended.append space) space)
          simpa [prepend, codeFrom, linesCode] using spaced
      | cons letter rest =>
          obtain ⟨later, final⟩ := inductionHypothesis code.2 (by simp)
          refine ⟨?_, final⟩
          have spaced := (Respaced.refl code.1).append ((Respaced.of_blank ended space).append later)
          simpa [prepend] using spaced

namespace Scan

variable {scan other : Scan}

theorem readCode_concat (line : Nat) (scan : Scan) (first second : Text) :
    readCode line scan (first ++ second) =
      ((readCode line scan first).1 ++ (readCode line (readCode line scan first).2 second).1,
        (readCode line (readCode line scan first).2 second).2) := by
  induction first generalizing scan with
  | nil => rfl
  | cons letter first inductionHypothesis =>
      rw [List.cons_append, readCode, readCode]
      split
      · rw [inductionHypothesis]
        rfl
      · exact inductionHypothesis _

theorem inside_push (line : Nat) (scan : Scan) (letter : Char) :
    (push line scan letter).inside = scan.inside := by
  unfold push
  split <;> rfl

theorem inside_readCode (line : Nat) (scan : Scan) (code : Text) :
    (readCode line scan code).2.inside = scan.inside := by
  induction code generalizing scan with
  | nil => rfl
  | cons letter code inductionHypothesis =>
      rw [readCode]
      split
      · exact inductionHypothesis _
      · rw [inductionHypothesis, inside_push]

/-- A line without a hash is code with a space behind it. -/
theorem readLine_of_plain (line : Nat) (scan : Scan) {raw : Text}
    (plain : '#' ∉ (withoutComments scan.inside raw).1) :
    scan.readLine line raw =
      readCode line (enter line scan (withoutComments scan.inside raw).2)
        ((withoutComments scan.inside raw).1 ++ [' ']) := by
  rw [readLine_eq]
  generalize withoutComments scan.inside raw = code at plain ⊢
  have undirected : (enter line scan code.2).isDirective code.1 = false := by
    rw [isDirective, Bool.and_eq_false_iff]
    refine .inr (beq_eq_false_iff_ne.2 fun first => plain ?_)
    exact (List.dropWhile_sublist isWhite).subset (List.mem_of_mem_head? first)
  have space (state : Scan) : readCode line state [' '] = ([], push line state ' ') := rfl
  rw [readStripped, undirected, readCode_concat, space, List.append_nil]
  rfl

theorem readLines_alike (alike : scan.Alike other) {lines : List Text}
    (plain : '#' ∉ (linesCode scan.inside lines).1) (line number : Nat) :
    (readLines line scan lines).1.map Event.normal =
        (readCode number other (linesCode scan.inside lines).1).1.map Event.normal ∧
      (readLines line scan lines).2.Alike
        (readCode number other (linesCode scan.inside lines).1).2 ∧
      (readLines line scan lines).2.inside = (linesCode scan.inside lines).2 := by
  induction lines generalizing scan other line with
  | nil => exact ⟨rfl, alike, rfl⟩
  | cons raw lines inductionHypothesis =>
      have parts : (linesCode scan.inside (raw :: lines)).1 =
          ((withoutComments scan.inside raw).1 ++ [' ']) ++
            (linesCode (withoutComments scan.inside raw).2 lines).1 := by
        simp [linesCode]
      rw [parts, List.mem_append, List.mem_append, not_or, not_or] at plain
      have read := readLine_of_plain line scan plain.1.1
      have entered : (enter line scan (withoutComments scan.inside raw).2).Alike other :=
        ⟨alike.pending, alike.depth⟩
      obtain ⟨events, state⟩ := entered.readCode (.refl _) line number
      rw [← read] at events state
      have inside : (scan.readLine line raw).2.inside = (withoutComments scan.inside raw).2 := by
        rw [read, inside_readCode]
        rfl
      have rest := inductionHypothesis state (inside ▸ plain.2) (line + 1)
      rw [inside] at rest
      obtain ⟨later, final, ends⟩ := rest
      rw [parts, readCode_concat]
      refine ⟨?_, final, ends⟩
      rw [readLines, List.map_append, List.map_append, events, later]

end Scan

/-- The events of code on one line. -/
def codeEvents (code : Text) : List Event :=
  let read := Scan.initial.readCode 1 code
  read.1 ++ read.2.finish

theorem codeEvents_respaced {first second : Text} (respaced : Respaced first second) :
    (codeEvents first).map Event.normal = (codeEvents second).map Event.normal := by
  have start : Scan.initial.Alike Scan.initial := ⟨.nil, rfl⟩
  obtain ⟨events, state⟩ := start.readCode respaced 1 1
  have ended := state.finish (Scan.inside_readCode ..) (Scan.inside_readCode ..)
  rw [codeEvents, codeEvents, List.map_append, List.map_append, events, ended]

/-- A header text without directives that closes its comments is read as its code on one line. -/
theorem events_of_code {text : Text} (plain : '#' ∉ (codeFrom .code text).1)
    (outside : (codeFrom .code text).2 = .code) :
    (events text).map Event.normal =
      (codeEvents ((codeFrom .code text).1 ++ [' '])).map Event.normal := by
  by_cases empty : text = []
  · subst empty
    rfl
  · obtain ⟨respaced, leads⟩ := respaced_linesCode false empty
    change Respaced ((codeFrom .code text).1 ++ [' ']) _ at respaced
    change LeadsTo (codeFrom .code text).2 _ at leads
    have undirected : '#' ∉ (linesCode Scan.initial.inside (lines text)).1 := by
      intro member
      have listed := respaced.mem_of_solid (by decide) member
      exact plain (by simpa using listed)
    have closed : (linesCode false (lines text)).2 = false := by
      rw [outside] at leads
      generalize (linesCode false (lines text)).2 = inside at leads
      cases leads
      rfl
    have start : Scan.initial.Alike Scan.initial := ⟨.nil, rfl⟩
    obtain ⟨read, state, inside⟩ := Scan.readLines_alike start undirected 1 1
    have ended := state.finish (inside.trans closed) (Scan.inside_readCode ..)
    rw [codeEvents_respaced respaced, events, codeEvents, List.map_append, List.map_append, read,
      ended]
    rfl

/-- A header text without comments and directives declares the same when its white space is laid
out in another way, as any white space and any comments. An error may only change its line and the
spacing of the text that it quotes. -/
theorem Database.ofText_relaid {source other : Text} (plain : '/' ∉ source)
    (undirected : '#' ∉ source) (relaid : Relaid Gap source other)
    (read : Text → Option (List UInt8)) (file : Text) :
    (Database.ofText read file other).mapError Error.normal =
      (Database.ofText read file source).mapError Error.normal := by
  have own : '#' ∉ (codeFrom .code source).1 := by
    rw [codeFrom_of_plain plain]
    intro member
    obtain ⟨letter, listed, same⟩ := List.mem_map.1 member
    unfold flatten at same
    split at same
    · contradiction
    · exact undirected (same ▸ listed)
  obtain ⟨respaced, outside⟩ := respaced_codeFrom plain relaid
  have others : '#' ∉ (codeFrom .code other).1 :=
    fun member => own (respaced.mem_of_solid (by decide) member)
  refine readText_normal ?_ read depthLimit file ['.'] empty
  rw [events_of_code others outside, events_of_code own (by rw [codeFrom_of_plain plain])]
  exact (codeEvents_respaced (respaced.append_singleton ' ')).symm

/-- A block comment that goes on over a line ending and a line comment take the place of spaces. -/
theorem Database.ofText_relaid_comments :
    ∃ database,
      Database.ofText (fun _ => none) [] "char *p; int a;".toList = .ok database ∧
      Database.ofText (fun _ => none) []
        "char/* a #\n // b **/*p;// c /* \nint a;".toList = .ok database ∧
      database.size = 2 := by
  have events : events "char *p; int a;".toList =
      [.statement 1 "char *p".toList, .statement 1 "int a".toList] := by decide +kernel
  have pointer : prototype? (withoutSpecifiers "char *p".toList) =
      .ok (some ⟨['p'], "char *".toList, .data, .cdecl, [], false⟩) := by decide +kernel
  have number : prototype? (withoutSpecifiers "int a".toList) =
      .ok (some ⟨['a'], "int".toList, .data, .cdecl, [], false⟩) := by decide +kernel
  have source : Database.ofText (fun _ => none) [] "char *p; int a;".toList =
      .ok ((Database.empty.insert ⟨['p'], "char *".toList, .data, .cdecl, [], false⟩).insert
        ⟨['a'], "int".toList, .data, .cdecl, [], false⟩) := by
    rw [Database.ofText, Database.readText_eq, events]
    simp only [List.foldlM_cons, List.foldlM_nil, Database.declare, pointer, number]
    rfl
  have kept (text : Text) : Relaid Gap text text := .refl (fun _ => .white) text
  have space : IsBlank [' '] := .singleton (by decide)
  have block : Gap ('/' :: '*' :: (" a #\n // b *".toList ++ ['*', '/'])) :=
    .comment (.block (by decide +kernel))
  have line : Gap ('/' :: '/' :: (" c /* ".toList ++ ['\n'])) :=
    .comment (.line (by decide +kernel))
  have relaid := (kept "char".toList).append
    (.blank space block ((kept "*p;".toList).append (.blank space line (kept "int a;".toList))))
  have parts : "char/* a #\n // b **/*p;// c /* \nint a;".toList =
      "char".toList ++ (('/' :: '*' :: (" a #\n // b *".toList ++ ['*', '/'])) ++
        ("*p;".toList ++ (('/' :: '/' :: (" c /* ".toList ++ ['\n'])) ++ "int a;".toList))) := by
    decide +kernel
  have plain : "char *p; int a;".toList =
      "char".toList ++ ([' '] ++ ("*p;".toList ++ ([' '] ++ "int a;".toList))) := by decide +kernel
  have same := Database.ofText_relaid (by rw [← plain]; decide +kernel)
    (by rw [← plain]; decide +kernel) relaid (fun _ => none) []
  rw [← parts, ← plain, source] at same
  refine ⟨_, source, ?_, by decide +kernel⟩
  generalize Database.ofText (fun _ => none) [] _ = result at same ⊢
  cases result with
  | error => contradiction
  | ok database => exact same

end DataSegment.Header
