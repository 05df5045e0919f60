import DataSegment.Proofs.Header.Forms
import DataSegment.Proofs.Header.Layout

namespace DataSegment.Header

open Text

/-- A statement starts at its first character that is not white space. -/
theorem codeEvents_statement {text : Text}
    (plain : ∀ letter ∈ text, letter ≠ ';' ∧ letter ≠ '\x7b' ∧ letter ≠ '\x7d') :
    codeEvents (text ++ [';', ' ']) = [.statement 1 (trimStart text)] := by
  have parts : text.takeWhile isWhite ++ trimStart text = text := List.takeWhile_append_dropWhile
  have white : ∀ letter ∈ text.takeWhile isWhite, isWhite letter = true :=
    fun _ => List.mem_takeWhile_imp
  have absorbed : Scan.initial.absorb (text.takeWhile isWhite) = Scan.initial := rfl
  have moved : codeEvents (text ++ [';', ' ']) = codeEvents (trimStart text ++ [';', ' ']) := by
    rw [codeEvents, ← parts, List.append_assoc, Scan.readCode_white_append 1 _ white, parts,
      absorbed]
    rfl
  rw [moved]
  cases found : trimStart text with
  | nil => rfl
  | cons first rest =>
      have solid : isWhite first = false := by
        have stops := List.head?_dropWhile_not isWhite text
        rw [← trimStart, found] at stops
        exact stops
      have inside : ∀ letter ∈ first :: rest,
          letter ≠ ';' ∧ letter ≠ '\x7b' ∧ letter ≠ '\x7d' := by
        intro letter member
        rw [← found] at member
        exact plain letter ((List.dropWhile_sublist isWhite).subset member)
      obtain ⟨⟨ends, opens, closes⟩, others⟩ := List.forall_mem_cons.1 inside
      have pushed : Scan.push 1 Scan.initial first = ⟨[first], 1, 0, false, 0⟩ := by
        simp [Scan.push, Scan.initial, solid, opens, closes]
      have read : Scan.initial.readCode 1 ((first :: rest) ++ [';']) =
          ([.statement 1 (first :: rest)], ⟨[], 1, 0, false, 0⟩) := by
        rw [List.cons_append, Scan.readCode, if_neg (by simp [ends]), pushed,
          Scan.readCode_append 1 1 0 false (by simp) others]
        rfl
      have spaced : (first :: rest) ++ [';', ' '] = ((first :: rest) ++ [';']) ++ [' '] := by simp
      rw [codeEvents, spaced, Scan.readCode_concat, read]
      rfl

theorem respaced_map_flatten (text : Text) : Respaced text (text.map flatten) := by
  induction text with
  | nil => exact .nil
  | cons letter text inductionHypothesis =>
      cases white : isWhite letter with
      | false =>
          have same : flatten letter = letter := by
            rw [flatten, if_neg]
            rintro rfl
            exact absurd white (by decide)
          rw [List.map_cons, same]
          exact .solid white inductionHypothesis
      | true =>
          have other : isWhite (flatten letter) = true := by rw [isWhite_flatten, white]
          exact .blank (.singleton white) (.singleton other) inductionHypothesis

/-- The letters of a statement open no comment, body or directive and do not end it. -/
def IsPlain (text : Text) : Prop := ∀ letter ∈ text, letter ∉ restricted ∧ letter ≠ '#'

theorem IsPlain.append {first second : Text} (left : IsPlain first) (right : IsPlain second) :
    IsPlain (first ++ second) :=
  List.forall_mem_append.2 ⟨left, right⟩

theorem IsPlain.of_white {run : Text} (white : ∀ letter ∈ run, isWhite letter = true) :
    IsPlain run := by
  have marks : ∀ letter ∈ '#' :: restricted, isWhite letter = false := by decide
  intro letter member
  have absent : letter ∉ '#' :: restricted := by
    intro listed
    have solid := marks letter listed
    rw [white letter member] at solid
    contradiction
  rw [List.mem_cons, not_or] at absent
  exact ⟨absent.2, absent.1⟩

/-- A header with one statement is read as that statement. -/
theorem exists_events_statement {text : Text} (plain : IsPlain text) :
    ∃ line found, events (text ++ [';']) = [.statement line found] ∧
      withoutSpecifiers found = withoutSpecifiers text := by
  have free : ∀ letter ∈ text, letter ≠ ';' ∧ letter ≠ '\x7b' ∧ letter ≠ '\x7d' ∧
      letter ≠ '/' := by
    intro letter member
    have known := (plain letter member).1
    simpa only [restricted, List.mem_cons, List.not_mem_nil, or_false, not_or] using known
  have slash : '/' ∉ text ++ [';'] := by
    simpa using fun member => (free '/' member).2.2.2 rfl
  -- Line feeds are spaces in the code, which changes the spacing and no word.
  have code : codeFrom .code (text ++ [';']) = (text.map flatten ++ [';'], .code) := by
    rw [codeFrom_of_plain slash, List.map_append]
    rfl
  have flat : ∀ letter ∈ text.map flatten,
      letter ≠ ';' ∧ letter ≠ '\x7b' ∧ letter ≠ '\x7d' ∧ letter ≠ '#' := by
    intro letter member
    obtain ⟨other, listed, rfl⟩ := List.mem_map.1 member
    unfold flatten
    split
    · decide
    · have known := free other listed
      exact ⟨known.1, known.2.1, known.2.2.1, (plain other listed).2⟩
  have undirected : '#' ∉ (codeFrom .code (text ++ [';'])).1 := by
    rw [code]
    simpa using fun member => (flat '#' member).2.2.2 rfl
  have read := events_of_code undirected (by rw [code])
  have stated := codeEvents_statement fun letter member =>
    ⟨(flat letter member).1, (flat letter member).2.1, (flat letter member).2.2.1⟩
  rw [code, List.append_assoc, List.singleton_append, stated] at read
  obtain ⟨event, same, normal⟩ := List.map_eq_singleton_iff.1 read
  have trimmed : withoutSpecifiers (trimStart (text.map flatten)) = withoutSpecifiers text := by
    have parts : (text.map flatten).takeWhile isWhite ++ trimStart (text.map flatten) =
        text.map flatten := List.takeWhile_append_dropWhile
    rw [withoutSpecifiers_respaced (respaced_map_flatten text), ← parts,
      withoutSpecifiers_white_append fun _ => List.mem_takeWhile_imp, parts]
  cases event with
  | statement line found =>
      refine ⟨line, found, same, ?_⟩
      have kept : withoutSpecifiers found = withoutSpecifiers (trimStart (text.map flatten)) := by
        simpa [Event.normal] using normal
      rw [kept, trimmed]
  | inclusion | openComment | openStatement => simp [Event.normal] at normal

theorem mem_dropAnnotations {text : Text} {letter : Char} (member : letter ∈ dropAnnotations text) :
    letter = ' ' ∨ letter ∈ text := by
  fun_induction dropAnnotations text with
  | case1 text missing => exact .inr member
  | case2 text before after found open' => exact .inr member
  | case3 text before after found inner rest closed smaller inductionHypothesis =>
      have whole := eq_append_of_breakOn? found
      have parts := eq_append_of_closing? closed
      rcases List.mem_append.1 member with member | member
      · exact .inr (by simp [whole, member])
      · rcases List.mem_cons.1 member with rfl | member
        · exact .inl rfl
        · exact (inductionHypothesis member).imp_right fun later => by simp [whole, parts, later]

/-- A statement gains no characters but spaces when it loses its specifiers. -/
theorem mem_withoutSpecifiers {text : Text} {letter : Char}
    (member : letter ∈ withoutSpecifiers text) : letter = ' ' ∨ letter ∈ text := by
  rcases mem_unwords member with space | ⟨word, listed, member⟩
  · exact .inl space
  · have known := (mem_words.1 (List.mem_of_mem_filter listed)).1
    exact mem_dropAnnotations (mem_of_mem_splitOnP known letter member)

/-- A header with one statement declares what the statement declares. -/
theorem Database.ofText_statement {text : Text} {prototype : Prototype} (plain : IsPlain text)
    (found : prototype? (withoutSpecifiers text) = .ok (some prototype))
    (read : Text → Option (List UInt8)) (file : Text) :
    Database.ofText read file (text ++ [';']) = .ok (Database.empty.insert prototype) := by
  obtain ⟨line, statement, events, same⟩ := exists_events_statement plain
  rw [Database.ofText, Database.readText_eq, events, List.foldlM_cons, Database.declare, same,
    found]
  rfl

/-- A header with one statement that is ignored declares nothing. -/
theorem Database.ofText_ignored {text : Text} (plain : IsPlain text)
    (found : prototype? (withoutSpecifiers text) = .ok none)
    (read : Text → Option (List UInt8)) (file : Text) :
    Database.ofText read file (text ++ [';']) = .ok Database.empty := by
  obtain ⟨line, statement, events, same⟩ := exists_events_statement plain
  rw [Database.ofText, Database.readText_eq, events, List.foldlM_cons, Database.declare, same,
    found]
  rfl

/-- Text behind a routine is passed over, such as a second routine when no semicolon ends the first
one. -/
theorem Declares.append {text second : Text} {prototype : Prototype}
    (declares : Declares text prototype) (kind : prototype.kind = .routine)
    (starts : ∃ letter rest, second = letter :: rest ∧ isWhite letter = false ∧ letter ≠ '(') :
    Declares (text ++ ' ' :: second) prototype := by
  obtain ⟨letter, others, rfl, solid, other⟩ := starts
  cases declares with
  | data => contradiction
  | pointer => contradiction
  | @routine head named list rest type name read parts first balanced ends marked typed listed =>
      have longer : text ++ ' ' :: letter :: others =
          head ++ '(' :: (list ++ ')' :: (rest ++ ' ' :: letter :: others)) := by
        simp [parts]
      refine .routine longer first balanced ?_ marked typed listed
      rw [head?_trim] at ends ⊢
      rw [trimStart, List.dropWhile_append]
      split
      · rw [List.dropWhile_cons_of_pos (by decide), List.dropWhile_cons_of_neg (by simp [solid])]
        simpa using other
      · rename_i filled
        rw [List.head?_append, Option.or_of_isSome (by simpa using filled)]
        exact ends

/-- A statement is ignored, or it adds a prototype when it has one of three forms, or it is
refused. The forms pass over what stands behind a parameter list. -/
theorem Database.declare_statement (file : Text) (follow : Database.Follow) (line : Nat)
    (database : Database) (text : Text) :
    (∀ result, Database.declare file follow database (.statement line text) = .ok result ↔
      (isIgnored (withoutSpecifiers text) = true ∧ result = database) ∨
        isIgnored (withoutSpecifiers text) = false ∧
          ∃ prototype, Declares (withoutSpecifiers text) prototype ∧
            result = database.insert prototype) ∧
    ∀ prototype second, Declares (withoutSpecifiers text) prototype → prototype.kind = .routine →
      (∃ letter rest, second = letter :: rest ∧ isWhite letter = false ∧ letter ≠ '(') →
      Declares (withoutSpecifiers text ++ ' ' :: second) prototype := by
  refine ⟨fun result => ?_, fun prototype second declares kind starts =>
    declares.append kind starts⟩
  rw [Database.declare]
  cases found : prototype? (withoutSpecifiers text) with
  | error fault =>
      have more : isIgnored (withoutSpecifiers text) = false := by
        rw [Bool.eq_false_iff]
        intro ignored
        rw [prototype?_eq_none_iff.2 ignored] at found
        contradiction
      constructor
      · intro refused
        contradiction
      · rintro (⟨ignored, _⟩ | ⟨_, prototype, declares, _⟩)
        · rw [more] at ignored
          contradiction
        · rw [prototype?_eq_some_iff.2 ⟨more, declares⟩] at found
          contradiction
  | ok declared =>
      cases declared with
      | none =>
          have ignored := prototype?_eq_none_iff.1 found
          simp [ignored, eq_comm]
      | some prototype =>
          obtain ⟨more, declares⟩ := prototype?_eq_some_iff.1 found
          constructor
          · intro made
            exact .inr ⟨more, prototype, declares, (Except.ok.inj made).symm⟩
          · rintro (⟨ignored, _⟩ | ⟨_, other, also, rfl⟩)
            · rw [more] at ignored
              contradiction
            · have same := prototype?_eq_some_iff.2 ⟨more, also⟩
              rw [Option.some.inj (Except.ok.inj (found.symm.trans same))]

/-- Without a semicolon between them the second of two routines is lost, and a name in front of a
comma or of `=` becomes part of a type. -/
theorem Database.ofText_lost :
    ∃ first second,
      Database.ofText (fun _ => none) [] "int f(int a)\nint g(int b);".toList = .ok first ∧
      first.size = 1 ∧ (first.lookup? ['f']).isSome = true ∧ first.lookup? ['g'] = none ∧
      Database.ofText (fun _ => none) [] "int a, b; int c = d;".toList = .ok second ∧
      second.lookup? ['a'] = none ∧ second.lookup? ['c'] = none ∧
      second.lookup? ['b'] = some ⟨['b'], "int a,".toList, .data, .cdecl, [], false⟩ ∧
      second.lookup? ['d'] = some ⟨['d'], "int c =".toList, .data, .cdecl, [], false⟩ := by
  have routines : events "int f(int a)\nint g(int b);".toList =
      [.statement 1 "int f(int a) int g(int b)".toList] := by decide +kernel
  have routine : prototype? (withoutSpecifiers "int f(int a) int g(int b)".toList) =
      .ok (some ⟨['f'], "int".toList, .routine, .cdecl, [⟨"int a".toList, none⟩], false⟩) := by
    decide +kernel
  have data : events "int a, b; int c = d;".toList =
      [.statement 1 "int a, b".toList, .statement 1 "int c = d".toList] := by decide +kernel
  have comma : prototype? (withoutSpecifiers "int a, b".toList) =
      .ok (some ⟨['b'], "int a,".toList, .data, .cdecl, [], false⟩) := by decide +kernel
  have value : prototype? (withoutSpecifiers "int c = d".toList) =
      .ok (some ⟨['d'], "int c =".toList, .data, .cdecl, [], false⟩) := by decide +kernel
  refine ⟨Database.empty.insert
      ⟨['f'], "int".toList, .routine, .cdecl, [⟨"int a".toList, none⟩], false⟩,
    (Database.empty.insert ⟨['b'], "int a,".toList, .data, .cdecl, [], false⟩).insert
      ⟨['d'], "int c =".toList, .data, .cdecl, [], false⟩, ?_, ?_⟩
  · rw [Database.ofText, Database.readText_eq, routines, List.foldlM_cons, Database.declare,
      routine]
    rfl
  · refine ⟨by decide +kernel, by decide +kernel, by decide +kernel, ?_, by decide +kernel,
      by decide +kernel, by decide +kernel, by decide +kernel⟩
    rw [Database.ofText, Database.readText_eq, data]
    simp only [List.foldlM_cons, List.foldlM_nil, Database.declare, comma, value]
    rfl

end DataSegment.Header
