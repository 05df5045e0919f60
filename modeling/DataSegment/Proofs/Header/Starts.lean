import DataSegment.Proofs.Header.Concatenation
import DataSegment.Proofs.Header.Cut

namespace DataSegment.Header

open Text

/-- A statement of a text starts with a character: it is neither white space nor in a comment,
nothing is open in front of it, and it opens a statement. -/
structure StartsStatement (source before : Text) (letter : Char) (after : Text) : Prop where
  parts : source = before ++ letter :: after
  code : InCode before (letter :: after)
  plain : ¬StartsComment (letter :: after)
  solid : isWhite letter = false
  complete : (Scan.final before).finish = []
  opens : events (before ++ [letter]) =
    events before ++ [.openStatement (before.count '\n' + 1) [letter]]

namespace StartsStatement

variable {source before after : Text} {letter : Char}

/-- A statement also starts there when the text goes on. -/
theorem append (starts : StartsStatement source before letter after) {more : Text}
    (plain : ¬StartsComment (letter :: (after ++ more))) :
    StartsStatement (source ++ more) before letter (after ++ more) where
  parts := by rw [starts.parts, List.append_assoc, List.cons_append]
  code := starts.code.of_head? rfl
  plain := plain
  solid := starts.solid
  complete := starts.complete
  opens := starts.opens

theorem append_of_head? (starts : StartsStatement source before letter after) {more : Text}
    (line : more.head? ≠ some '/') (block : more.head? ≠ some '*') :
    StartsStatement (source ++ more) before letter (after ++ more) := by
  refine starts.append fun found => starts.plain ?_
  rw [startsComment_cons] at found ⊢
  cases after with
  | nil => exact absurd found.2 (by simp [line, block])
  | cons next after => exact found

/-- Behind the line where a statement starts the text can go on with anything. -/
theorem append_of_isWhole (starts : StartsStatement source before letter after)
    (whole : IsWhole source) (more : Text) :
    StartsStatement (source ++ more) before letter (after ++ more) := by
  refine starts.append fun found => starts.plain ?_
  rw [startsComment_cons] at found ⊢
  cases after with
  | nil =>
      obtain rfl := whole letter (by rw [starts.parts, List.getLast?_concat])
      exact absurd starts.solid (by decide)
  | cons next after => exact found

end StartsStatement

namespace Scan

theorem events_eq_reading (source : Text) :
    events source = (reading source).1 ++ (final source).finish := rfl

/-- An event of two lists stands in the first one, or in the second one behind all of the first. -/
theorem eq_append_cons_of_append {first second earlier later : List Event} {event : Event}
    (parts : first ++ second = earlier ++ event :: later) :
    (∃ more, first = earlier ++ event :: more) ∨
      ∃ more, earlier = first ++ more ∧ second = more ++ event :: later := by
  obtain ⟨more, rfl, same⟩ | ⟨more, rfl, same⟩ := List.append_eq_append_iff.1 parts
  · exact .inr ⟨more, rfl, same⟩
  · cases more with
    | nil => exact .inr ⟨[], by simp, same.symm⟩
    | cons other more =>
        obtain ⟨rfl, _⟩ := List.cons.inj same
        exact .inl ⟨more, rfl⟩

/-- A line that is a directive ends between two statements. -/
theorem readLine_directive {line : Nat} {scan : Scan} {raw : Text}
    (directive : scan.isDirective (withoutComments scan.inside raw).1 = true) :
    (scan.readLine line raw).2.pending = [] ∧
      ∀ event ∈ (scan.readLine line raw).1, ∃ target, event = .inclusion line target := by
  have same : (enter line scan (withoutComments scan.inside raw).2).isDirective
      (withoutComments scan.inside raw).1 = true := directive
  rw [readLine_eq, readStripped, if_pos same]
  constructor
  · rw [isDirective, Bool.and_eq_true, List.isEmpty_iff] at directive
    exact directive.1
  · intro event member
    obtain ⟨target, _, rfl⟩ := Option.map_eq_some_iff.1 (Option.mem_toList.1 member)
    exact ⟨target, rfl⟩

namespace ReadsTo

variable {source : Text} {events : List Event} {scan : Scan}

/-- Between two statements all events are behind. -/
theorem complete (reads : ReadsTo source events scan) (empty : scan.pending = []) :
    (final source).finish = [] ∧ Header.events source = events := by
  have closed : (final source).finish = [] := by
    rw [finish_eq_nil_iff]
    refine ⟨reads.outside, ?_⟩
    rw [← List.getLast?_eq_none_iff, reads.same.first, empty]
    rfl
  exact ⟨closed, by rw [events_eq_reading, closed, reads.events, List.append_nil]⟩

/-- The first character of a statement is open behind all events. -/
theorem events_of_single (reads : ReadsTo source events scan) {letter : Char}
    (single : scan.pending = [letter]) (solid : isWhite letter = false) :
    Header.events source = events ++ [.openStatement scan.start [letter]] := by
  obtain ⟨read, outside, start, first, text⟩ := reads
  rw [single] at first text
  have filled : (final source).pending.isEmpty = false := by
    cases empty : (final source).pending with
    | nil => simp [empty] at first
    | cons head rest => rfl
  have finish : (final source).finish = [.openStatement scan.start [letter]] := by
    rw [Scan.finish, outside, filled, start, text]
    simp [trim_of_solid, solid]
  rw [events_eq_reading, finish, read]

end ReadsTo

/-- A character of the code of a line starts a statement when nothing is open in front of it and
it is no semicolon. -/
theorem startsStatement_of_line {front line ending first rest : Text} {letter : Char}
    (whole : IsWhole front) (isLine : IsLine line ending) (solid : isWhite letter = false)
    (code : (withoutComments (final front).inside line).1 = first ++ letter :: rest)
    (undirected : (final front).isDirective (withoutComments (final front).inside line).1 = false)
    (complete : (readCode (front.count '\n' + 1) (final front) first).2.pending = [])
    (goes : ¬(letter = ';' ∧ (readCode (front.count '\n' + 1) (final front) first).2.depth = 0)) :
    ∃ before after, StartsStatement (front ++ (line ++ ending)) before letter after ∧
      events before =
        (reading front).1 ++ (readCode (front.count '\n' + 1) (final front) first).1 ∧
      before.count '\n' = front.count '\n' := by
  obtain ⟨before, after, rfl, code, plain, short, long⟩ :=
    exists_readsTo whole isLine.solid solid code undirected
  obtain ⟨closed, eventsBefore⟩ := short.complete complete
  have count : (front ++ before).count '\n' = front.count '\n' := by
    have early : '\n' ∉ before := fun member => isLine.solid (by simp [member])
    rw [List.count_append, List.count_eq_zero_of_not_mem early, Nat.add_zero]
  have starts : StartsStatement (front ++ (before ++ letter :: after)) (front ++ before) letter
      after := by
    rw [readCode_append_singleton goes, push_solid solid, complete] at long
    have opens := long.events_of_single rfl solid
    refine ⟨by simp, code, plain, solid, closed, ?_⟩
    rw [List.append_assoc, opens, eventsBefore, count]
    rfl
  have longer := starts.append_of_head? (show ending.head? ≠ some '/' by cases isLine <;> simp)
    (by cases isLine <;> simp)
  rw [List.append_assoc] at longer
  exact ⟨front ++ before, after ++ ending, longer, eventsBefore, count⟩

/-- The first character of an open statement starts it, on its line. -/
theorem exists_startsStatement {source : Text} {letter : Char}
    (last : (final source).pending.getLast? = some letter) :
    ∃ before after, StartsStatement source before letter after ∧
      (reading source).1 = events before ∧ (final source).start = before.count '\n' + 1 := by
  induction source using lastLine with
  | nil => contradiction
  | line front line ending whole isLine inductionHypothesis =>
      rw [final_append whole isLine] at last ⊢
      rw [reading_append whole isLine]
      cases directive : (final front).isDirective
          (withoutComments (final front).inside line).1 with
      | true =>
          rw [(readLine_directive directive).1] at last
          contradiction
      | false =>
          obtain ⟨events, same⟩ := readLine_code (front.count '\n' + 1) directive
          rw [same.first] at last
          rw [events, same.start]
          obtain ⟨earlier, none, start⟩ |
            ⟨first, rest, code, solid, complete, goes, events, start⟩ := exists_start_readCode last
          · obtain ⟨before, after, starts, read, here⟩ := inductionHypothesis earlier
            refine ⟨before, _, starts.append_of_isWhole whole _, ?_, start.trans here⟩
            rw [none, List.append_nil, read]
          · obtain ⟨before, after, starts, read, count⟩ :=
              startsStatement_of_line whole isLine solid code directive complete goes
            exact ⟨before, after, starts, by rw [events, read], by rw [start, count]⟩

/-- In front of the semicolon of a statement the statement is open. -/
theorem exists_open_of_reading {source text : Text} {start : Nat} {earlier later : List Event}
    (found : (reading source).1 = earlier ++ .statement start text :: later) :
    ∃ front rest, source = front ++ ';' :: rest ∧ (reading front).1 = earlier ∧
      (final front).start = start ∧ (final front).pending.getLast? = text.head? := by
  induction source using lastLine generalizing later with
  | nil => simp [reading, readLines] at found
  | line front line ending whole isLine inductionHypothesis =>
      rw [reading_append whole isLine] at found
      obtain ⟨more, inFront⟩ | ⟨more, rfl, inLine⟩ := eq_append_cons_of_append found
      · obtain ⟨other, rest, rfl, same⟩ := inductionHypothesis inFront
        exact ⟨other, rest ++ (line ++ ending), by simp, same⟩
      · cases directive : (final front).isDirective
            (withoutComments (final front).inside line).1 with
        | true =>
            obtain ⟨target, same⟩ := (readLine_directive directive).2 (.statement start text)
              (by rw [inLine]; simp)
            contradiction
        | false =>
            obtain ⟨events, _⟩ := readLine_code (front.count '\n' + 1) directive
            rw [events] at inLine
            obtain ⟨first, rest, code, read, here, pending⟩ := exists_end_readCode inLine
            obtain ⟨before, after, rfl, _, _, short, _⟩ :=
              exists_readsTo whole isLine.solid (by decide) code directive
            refine ⟨front ++ before, after ++ ending, by simp, ?_, ?_, ?_⟩
            · rw [short.events, read]
            · rw [short.same.start, here]
            · rw [short.same.first, ← pending, List.head?_reverse]

/-- The statement that is open at the end of a text is the last of its events. -/
theorem finish_eq_of_mem {scan : Scan} {start : Nat} {text : Text}
    (member : .openStatement start text ∈ scan.finish) :
    scan.finish = [.openStatement start text] ∧ scan.start = start ∧
      text = trim scan.pending.reverse ∧ scan.pending ≠ [] := by
  unfold finish at member ⊢
  split at member
  · simp at member
  · rename_i outside
    split at member
    · simp at member
    · rename_i filled
      obtain ⟨rfl, rfl⟩ := Event.openStatement.inj (List.mem_singleton.1 member)
      rw [if_neg outside, if_neg filled]
      exact ⟨rfl, rfl, rfl, by simpa using filled⟩

end Scan

/-- A statement with characters starts with the first of them. -/
theorem exists_start_of_statement {source text : Text} {line : Nat} {earlier later : List Event}
    (found : events source = earlier ++ .statement line text :: later) (filled : text ≠ []) :
    ∃ before letter after, StartsStatement source before letter after ∧ events before = earlier ∧
      line = before.count '\n' + 1 ∧ text.head? = some letter := by
  rw [Scan.events_eq_reading] at found
  obtain ⟨more, read⟩ | ⟨more, _, last⟩ := Scan.eq_append_cons_of_append found
  · obtain ⟨front, rest, rfl, events, here, first⟩ := Scan.exists_open_of_reading read
    obtain ⟨letter, head⟩ := Option.isSome_iff_exists.1 (List.isSome_head?.2 filled)
    rw [head] at first
    obtain ⟨before, after, starts, same, start⟩ := Scan.exists_startsStatement first
    exact ⟨before, letter, after ++ ';' :: rest,
      starts.append_of_head? (by simp) (by simp), same.symm.trans events, here.symm.trans start,
      head⟩
  · have member : .statement line text ∈ (Scan.final source).finish := by
      rw [last]
      simp
    unfold Scan.finish at member
    split at member
    · simp at member
    · split at member <;> simp at member

/-- An open statement starts with its first character. -/
theorem exists_start_of_openStatement {source text : Text} {line : Nat}
    {earlier later : List Event}
    (found : events source = earlier ++ .openStatement line text :: later) :
    ∃ before letter after, StartsStatement source before letter after ∧ events before = earlier ∧
      line = before.count '\n' + 1 ∧ text.head? = some letter ∧ later = [] := by
  rw [Scan.events_eq_reading] at found
  obtain ⟨more, read⟩ | ⟨more, rfl, last⟩ := Scan.eq_append_cons_of_append found
  · have member : .openStatement line text ∈ (Scan.reading source).1 := by
      rw [read]
      simp
    obtain ⟨_, _, same⟩ | ⟨_, _, same⟩ := Scan.eq_of_mem_readLines member <;> contradiction
  · have member : .openStatement line text ∈ (Scan.final source).finish := by
      rw [last]
      simp
    obtain ⟨single, rfl, rfl, filled⟩ := Scan.finish_eq_of_mem member
    rw [single] at last
    obtain ⟨rfl, rfl⟩ : more = [] ∧ later = [] := by
      simpa [List.singleton_eq_append_iff] using last
    obtain ⟨letter, first⟩ := Option.isSome_iff_exists.1 (List.getLast?_isSome.2 filled)
    obtain ⟨before, after, starts, same, start⟩ := Scan.exists_startsStatement first
    refine ⟨before, letter, after, starts, ?_, start, ?_, rfl⟩
    · rw [List.append_nil, same]
    · have head : (Scan.final source).pending.reverse.head? = some letter := by
        rw [List.head?_reverse, first]
      rw [head?_trim, trimStart, dropWhile_of_head?, head]
      intro other found
      rw [head] at found
      obtain rfl := Option.some.inj found
      exact starts.solid

namespace Database

/-- An inclusion of a text is followed when everything in front of it is declared. -/
def Follows (read : Text → Option (List UInt8)) (allowed : Nat) (file directory source : Text)
    (base : Database) (line : Nat) (target : Text) : Prop :=
  ∃ earlier later database, events source = earlier ++ .inclusion line target :: later ∧
    earlier.foldlM (declare file (followFrom read allowed file directory)) base = .ok database

theorem locate_eq_locate {fault other : Fault} {file path : Text} {line number : Nat}
    (same : fault.locate file line = other.locate path number) :
    fault = other ∧ file = path ∧ line = number := by
  cases fault with
  | malformed text =>
      cases other with
      | malformed second =>
          obtain ⟨rfl, rfl, rfl⟩ := Error.malformed.inj same
          exact ⟨rfl, rfl, rfl⟩
      | unknownRegister name => contradiction
  | unknownRegister name =>
      cases other with
      | malformed second => contradiction
      | unknownRegister other =>
          obtain ⟨rfl, rfl, rfl⟩ := Error.unknownRegister.inj same
          exact ⟨rfl, rfl, rfl⟩

/-- A text that follows no inclusion and is refused for a statement is refused on the line where the
statement starts. Everything in front of it is declared. -/
theorem readText_located {read : Text → Option (List UInt8)} {allowed line : Nat}
    {file directory source path : Text} {base : Database} {fault : Fault}
    (failed : readText read allowed file directory source base = .error (fault.locate path line))
    (own : ∀ start target, ¬Follows read allowed file directory source base start target) :
    path = file ∧ ∃ before letter after, StartsStatement source before letter after ∧
      line = before.count '\n' + 1 ∧
      (∃ database, readText read allowed file directory before base = .ok database) ∧
      ((∃ text later, events source = events before ++ .statement line text :: later ∧
          text.head? = some letter ∧ prototype? (withoutSpecifiers text) = .error fault) ∨
        ∃ text, events source = events before ++ [.openStatement line text] ∧
          text.head? = some letter ∧ fault = .malformed text) := by
  rw [readText_eq] at failed
  obtain ⟨earlier, event, later, database, parts, declared, fails⟩ :=
    Results.foldlM_eq_error failed
  have accepted {before : Text} (same : events before = earlier) :
      ∃ database, readText read allowed file directory before base = .ok database := by
    rw [readText_eq, same]
    exact ⟨database, declared⟩
  cases event with
  | statement start text =>
      rw [declare] at fails
      split at fails
      · rename_i other refused
        obtain ⟨rfl, rfl, rfl⟩ := locate_eq_locate (Except.error.inj fails)
        have filled : text ≠ [] := by
          rintro rfl
          have none : prototype? (withoutSpecifiers []) = .ok none := by decide +kernel
          rw [none] at refused
          contradiction
        obtain ⟨before, letter, after, starts, same, here, first⟩ :=
          exists_start_of_statement parts filled
        exact ⟨rfl, before, letter, after, starts, here, accepted same,
          .inl ⟨text, later, by rw [same, parts], first, refused⟩⟩
      · contradiction
      · contradiction
  | inclusion start target =>
      exact absurd ⟨earlier, later, database, parts, declared⟩ (own start target)
  | openComment start => cases fault <;> simp [declare, Fault.locate] at fails
  | openStatement start text =>
      have same : (Fault.malformed text).locate file start = fault.locate path line :=
        Except.error.inj fails
      obtain ⟨rfl, rfl, rfl⟩ := locate_eq_locate same
      obtain ⟨before, letter, after, starts, same, here, first, rfl⟩ :=
        exists_start_of_openStatement parts
      exact ⟨rfl, before, letter, after, starts, here, accepted same,
        .inr ⟨text, by rw [same, parts], first, rfl⟩⟩

/-- A statement behind a comment is refused on the line of its first word. -/
theorem readText_located_second :
    readText (fun _ => none) depthLimit [] ['.'] "int a; /* b\n */ int f(\nint c;".toList empty =
        .error (.malformed [] 2 "int f( int c".toList) ∧
      (∀ start target, ¬Follows (fun _ => none) depthLimit [] ['.']
        "int a; /* b\n */ int f(\nint c;".toList empty start target) ∧
      ∃ before letter after, StartsStatement "int a; /* b\n */ int f(\nint c;".toList before letter
        after ∧ 2 = before.count '\n' + 1 := by
  have found : events "int a; /* b\n */ int f(\nint c;".toList =
      [.statement 1 "int a".toList, .statement 2 "int f( int c".toList] := by decide +kernel
  have first : prototype? (withoutSpecifiers "int a".toList) =
      .ok (some ⟨['a'], "int".toList, .data, .cdecl, [], false⟩) := by decide +kernel
  have second : prototype? (withoutSpecifiers "int f( int c".toList) =
      .error (.malformed "int f( int c".toList) := by decide +kernel
  have failed : readText (fun _ => none) depthLimit [] ['.']
      "int a; /* b\n */ int f(\nint c;".toList empty =
      .error (Fault.locate [] 2 (.malformed "int f( int c".toList)) := by
    rw [readText_eq, found]
    simp only [List.foldlM_cons, declare, first, second]
    rfl
  have own (start : Nat) (target : Text) : ¬Follows (fun _ => none) depthLimit [] ['.']
      "int a; /* b\n */ int f(\nint c;".toList empty start target := by
    rintro ⟨earlier, later, database, parts, _⟩
    rw [found] at parts
    have member : .inclusion start target ∈ earlier ++ .inclusion start target :: later := by simp
    rw [← parts] at member
    simp at member
  obtain ⟨_, before, letter, after, starts, line, _⟩ := readText_located failed own
  exact ⟨failed, own, before, letter, after, starts, line⟩

end Database

end DataSegment.Header
