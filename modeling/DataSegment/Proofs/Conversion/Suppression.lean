import DataSegment.Proofs.Conversion.Composition
import DataSegment.Proofs.Conversion.Letters
import DataSegment.Proofs.Conversion.Safety

namespace DataSegment

open Assembly Listing

theorem Text.count_flatMap_add {A : Type} {entries : List A} {first second : A → Text}
    {lost : A → List Text} {letter : Char} {weight : Nat}
    (each : ∀ entry ∈ entries, (first entry).count letter =
      (second entry).count letter + (lost entry).length * weight) :
    (entries.flatMap first).count letter =
      (entries.flatMap second).count letter + (entries.flatMap lost).length * weight := by
  induction entries with
  | nil => simp
  | cons entry entries inductionHypothesis =>
      have head := each entry (List.mem_cons_self ..)
      have tail := inductionHypothesis fun other member =>
        each other (List.mem_cons_of_mem _ member)
      simp only [List.flatMap_cons, List.count_append, List.length_append, Nat.add_mul]
      omega

namespace Listing

/-- The operands of the list that a line declares. -/
def listed (line : Text) : List Operand :=
  match Entry.ofWords (keptWords line) with
  | .declaration declaration =>
      match Form.ofOperands declaration.width declaration.operands with
      | .ok (.list operands) => operands
      | _ => []
  | _ => []

theorem Declares.listed_eq {line : Text} {declaration : Declaration} {operands : List Operand}
    (declares : Declares line declaration operands) : listed line = operands := by
  rw [listed, declares.entry]
  dsimp only
  rw [declares.form]

theorem listed_eq_nil {line : Text}
    (plain : ∀ declaration operands, ¬Declares line declaration operands) : listed line = [] := by
  unfold listed
  split
  · rename_i declaration entry
    split
    · rename_i operands form
      exact absurd ⟨entry, form⟩ (plain declaration operands)
    · rfl
  · rfl

end Listing

namespace Settings

variable {settings : Settings} {first second : Location → Text} {lost : Location → List Text}
  {letter : Char} {weight : Nat}

theorem count_segmentText {segment : Segment}
    (each : ∀ line ∈ segment.statements,
      (first line).count letter = (second line).count letter + (lost line).length * weight) :
    (settings.segmentText first segment).count letter =
      (settings.segmentText second segment).count letter +
        (segment.statements.flatMap lost).length * weight := by
  have lines := Text.count_flatMap_add each
  simp only [segmentText, List.count_append]
  omega

theorem count_listingText {segments : List Segment} (defined : Names)
    (each : ∀ segment ∈ segments, ∀ line ∈ segment.statements,
      (first line).count letter = (second line).count letter + (lost line).length * weight) :
    (settings.listingText first segments defined).count letter =
      (settings.listingText second segments defined).count letter +
        (segments.flatMap fun segment => segment.statements.flatMap lost).length * weight := by
  have parts : (segments.flatMap (settings.segmentText first)).count letter =
      (segments.flatMap (settings.segmentText second)).count letter +
        (segments.flatMap fun segment => segment.statements.flatMap lost).length * weight :=
    Text.count_flatMap_add fun segment member => count_segmentText (each segment member)
  simp only [listingText, List.count_append]
  omega

end Settings

namespace Environment

/-- The environment with another list of names. -/
def withSuppressed (environment : Environment) (names : Suppression) : Environment :=
  { environment with suppressed := names }

/-- A name is suppressed only in the other environment. -/
def hides (environment other : Environment) (name : Text) : Bool :=
  other.suppresses name && !environment.suppresses name

/-- A name that is hidden becomes zero and goes to the comment. -/
def hide (environment other : Environment) : Operand → Item × List Text → Item × List Text
  | .label name, written => if environment.hides other name then (.number 0, [name]) else written
  | _, written => written

/-- The hidden names of a line. -/
def hiddenNames (environment other : Environment) (line : Location) : List Text :=
  ((listed line.raw).filterMap Operand.name?).filter (environment.hides other)

/-- The line of data of a list with its items and what they leave to the comment. -/
def listLine (declaration : Declaration) (written : List (Item × List Text)) : Line :=
  ⟨declaration.label, .list declaration.width (written.map Prod.fst), written.flatMap Prod.snd⟩

/-- What the data of a line become when names are hidden: operands of a list become zero, and
anything else stays as it is. -/
inductive Hides (environment other : Environment) (line : Text) : Line → Line → Prop where
  | list {declaration : Declaration} {operands : List Operand} {written : List (Item × List Text)}
      (declares : Declares line declaration operands)
      (each : List.Forall₂ (environment.Writes declaration.width) operands written) :
      Hides environment other line (listLine declaration written)
        (listLine declaration (List.zipWith (environment.hide other) operands written))
  | plain (plain : ∀ declaration operands, ¬Declares line declaration operands) (data : Line) :
      Hides environment other line data data

variable {environment : Environment} {names : Suppression}

section Larger

variable (grows : ∀ name ∈ environment.suppressed, name ∈ names)
include grows

theorem Suppressed.withSuppressed {name : Text} (suppressed : environment.Suppressed name) :
    (environment.withSuppressed names).Suppressed name :=
  suppressed.imp_right fun later => later.imp_right (grows name)

theorem Writes.withSuppressed {width : Width} {operand : Operand} {written : Item × List Text}
    (writes : environment.Writes width operand written) :
    (environment.withSuppressed names).Writes width operand
      (environment.hide (environment.withSuppressed names) operand written) := by
  cases writes with
  | @suppressed name suppressed =>
      have already : environment.hides (environment.withSuppressed names) name = false := by
        rw [hides, suppresses_iff.2 suppressed, Bool.not_true, Bool.and_false]
      rw [hide, already]
      exact .suppressed (suppressed.withSuppressed grows)
  | @external name exported admitted =>
      have shown : environment.suppresses name = false :=
        Bool.eq_false_iff.2 fun suppressed => exported (suppresses_iff.1 suppressed)
      rw [hide, hides, shown, Bool.not_false, Bool.and_true]
      split
      · rename_i hidden
        exact .suppressed (suppresses_iff.1 hidden)
      · rename_i other
        refine .external (fun suppressed => other (suppresses_iff.2 suppressed)) ?_
        -- What admits a name does not depend on the lists.
        cases admitted with
        | data found kind => exact .data found kind
        | routine found kind registers => exact .routine found kind registers
        | unknown missing unguessed => exact .unknown missing unguessed
  | unset => exact .unset
  | number read => exact .number read

theorem forall₂_writes_withSuppressed {width : Width} {operands : List Operand}
    {written : List (Item × List Text)}
    (each : List.Forall₂ (environment.Writes width) operands written) :
    List.Forall₂ ((environment.withSuppressed names).Writes width) operands
      (List.zipWith (environment.hide (environment.withSuppressed names)) operands written) := by
  induction each with
  | nil => exact .nil
  | cons first _ inductionHypothesis =>
      exact .cons (first.withSuppressed grows) inductionHypothesis

/-- A declaration that converts still does when more names are suppressed. -/
theorem declarationLine_withSuppressed {line : Text} {declaration : Declaration} {before : Line}
    (entry : Entry.ofWords (keptWords line) = .declaration declaration)
    (converted : environment.declarationLine declaration = .ok before) :
    ∃ after, (environment.withSuppressed names).declarationLine declaration = .ok after ∧
      environment.Hides (environment.withSuppressed names) line before after := by
  unfold declarationLine at converted ⊢
  cases found : Form.ofOperands declaration.width declaration.operands with
  | error cause =>
      rw [found] at converted
      contradiction
  | ok form =>
      rw [found] at converted
      dsimp only at converted ⊢
      obtain ⟨made, read, rfl⟩ := Results.map_eq_ok_iff.1 converted
      cases form with
      | list operands =>
          obtain ⟨written, each, rfl⟩ := statement_list_eq_ok_iff.1 read
          have eachToo := forall₂_writes_withSuppressed grows each
          have readToo := statement_list_eq_ok_iff.2 ⟨_, eachToo, rfl⟩
          exact ⟨_, Results.map_eq_ok_iff.2 ⟨_, readToo, rfl⟩, .list ⟨entry, found⟩ each⟩
      | string | repeated | packed | float =>
          refine ⟨_, Results.map_eq_ok_iff.2 ⟨made, read, rfl⟩, .plain ?_ _⟩
          intro other operands declares
          obtain rfl := Entry.declaration.inj (entry.symm.trans declares.entry)
          have form := Except.ok.inj (found.symm.trans declares.form)
          contradiction

/-- A line of data that does not fail becomes a line of data again. -/
theorem readInside_withSuppressed {line : Text} {before : Line}
    (read : (environment.readInside line).result = .ok (.inside, [.data before])) :
    ∃ after, ((environment.withSuppressed names).readInside line).result =
        .ok (.inside, [.data after]) ∧
      environment.Hides (environment.withSuppressed names) line before after := by
  have entry : environment.readEntry (Entry.ofWords (keptWords line)) =
      .ok (.inside, [.data before]) := read
  have shape : ((environment.withSuppressed names).readInside line).result =
      (environment.withSuppressed names).readEntry (Entry.ofWords (keptWords line)) := rfl
  rw [shape]
  cases found : Entry.ofWords (keptWords line) with
  | closing | ignored | unknownLine | unknownDeclaration =>
      rw [found] at entry
      simp [readEntry] at entry
  | align boundary =>
      rw [found] at entry
      refine ⟨before, entry, .plain (fun declaration operands declares => ?_) before⟩
      have declared := found.symm.trans declares.entry
      contradiction
  | declaration declaration =>
      rw [found] at entry
      obtain ⟨made, converted, same⟩ := Results.map_eq_ok_iff.1 entry
      obtain rfl : made = before := by simpa using same
      obtain ⟨after, larger, hides⟩ := declarationLine_withSuppressed grows found converted
      exact ⟨after, Results.map_eq_ok_iff.2 ⟨after, larger, rfl⟩, hides⟩

end Larger

/-- A hidden name loses its prefix on the way to the comment. -/
theorem Writes.count_hide (other : Environment) (letter : Char) {width : Width} {operand : Operand}
    {written : Item × List Text} (writes : environment.Writes width operand written) :
    let symbolPrefix := environment.settings.symbolPrefix
    let hidden := environment.hide other operand written
    (written.1.source symbolPrefix).count letter + written.2.flatten.count letter =
      (hidden.1.source symbolPrefix).count letter + hidden.2.flatten.count letter +
        (operand.name?.toList.filter (environment.hides other)).length *
          symbolPrefix.count letter := by
  cases writes with
  | @suppressed name suppressed =>
      have already : environment.hides other name = false := by
        rw [hides, suppresses_iff.2 suppressed, Bool.not_true, Bool.and_false]
      simp [hide, already, Operand.name?]
  | @external name exported admitted =>
      cases hidden : environment.hides other name with
      | true =>
          -- The name is written either way, as a symbol or in the comment.
          simp [hide, hidden, Operand.name?, Item.source]
          omega
      | false => simp [hide, hidden, Operand.name?]
  | unset => simp [hide, Operand.name?]
  | number read => simp [hide, Operand.name?]

theorem count_zipWith_hide (other : Environment) (letter : Char) {width : Width}
    {operands : List Operand} {written : List (Item × List Text)}
    (each : List.Forall₂ (environment.Writes width) operands written) :
    let symbolPrefix := environment.settings.symbolPrefix
    let hidden := List.zipWith (environment.hide other) operands written
    ((written.map Prod.fst).flatMap (Item.source symbolPrefix)).count letter +
        (written.flatMap Prod.snd).flatten.count letter =
      ((hidden.map Prod.fst).flatMap (Item.source symbolPrefix)).count letter +
        (hidden.flatMap Prod.snd).flatten.count letter +
        ((operands.filterMap Operand.name?).filter (environment.hides other)).length *
          symbolPrefix.count letter := by
  induction each with
  | nil => simp
  | @cons operand field operands fields first _ inductionHypothesis =>
      have field := first.count_hide other letter
      have named : (operand :: operands).filterMap Operand.name? =
          operand.name?.toList ++ operands.filterMap Operand.name? := by
        cases operand <;> rfl
      dsimp only at inductionHypothesis field ⊢
      rw [named]
      simp only [List.zipWith_cons_cons, List.map_cons, List.flatMap_cons, List.flatten_append,
        List.count_append, List.filter_append, List.length_append, Nat.add_mul]
      omega

/-- A line loses the line feeds of the prefixes of its hidden names. -/
theorem Hides.count_render {other : Environment} {line : Location} {before after : Line}
    (hides : environment.Hides other line.raw before after) :
    let symbolPrefix := environment.settings.symbolPrefix
    (before.render symbolPrefix).count '\n' =
      (after.render symbolPrefix).count '\n' +
        (environment.hiddenNames other line).length * symbolPrefix.count '\n' := by
  dsimp only
  have source (data : Line) : (data.render environment.settings.symbolPrefix).count '\n' =
      (data.source environment.settings.symbolPrefix).count '\n' := by
    rw [← Text.count_foreign (by decide), data.foreign_render, Text.count_foreign (by decide)]
  rw [source, source]
  cases hides with
  | list declares each =>
      have counted := count_zipWith_hide other '\n' each
      rw [hiddenNames, declares.listed_eq]
      simp only [Line.source, listLine, Statement.source, List.count_append]
      omega
  | plain plain =>
      rw [hiddenNames, listed_eq_nil plain]
      simp

/-- When no line of a listing fails, none fails when more names are suppressed. -/
theorem exists_lines_withSuppressed (grows : ∀ name ∈ environment.suppressed, name ∈ names)
    {line : Location} (goes : closes line.raw = false) (speaks : silent line.raw = false)
    (passes : (environment.statementFinding line).failure? = none) :
    ((environment.withSuppressed names).statementFinding line).failure? = none ∧
      ∃ before after,
        environment.translation line =
            before.render environment.settings.symbolPrefix ++ ['\n'] ∧
          (environment.withSuppressed names).translation line =
            after.render environment.settings.symbolPrefix ++ ['\n'] ∧
          environment.Hides (environment.withSuppressed names) line.raw before after := by
  cases result : (environment.readInside line.raw).result with
  | error cause =>
      simp [statementFinding, Finding.failure?, Reading.cause?, result] at passes
  | ok read =>
      obtain ⟨next, output⟩ := read
      obtain ⟨rfl, before, rfl⟩ := environment.readInside_of_speaks goes speaks result
      obtain ⟨after, larger, hides⟩ := readInside_withSuppressed grows result
      refine ⟨?_, before, after, ?_, ?_, hides⟩
      · simp [statementFinding, Finding.failure?, Reading.cause?, larger]
      · simp [translation, Reading.output, result, Output.render]
      · rw [translation, Reading.output, larger]
        exact List.flatMap_singleton ..

/-- A listing without a failure has none when more names are suppressed. -/
theorem passes_withSuppressed (grows : ∀ name ∈ environment.suppressed, name ∈ names)
    {file source : Text} {number : Nat}
    (passes : (environment.relevant file number source).findSome? Finding.failure? = none) :
    ((environment.withSuppressed names).relevant file number source).findSome?
      Finding.failure? = none := by
  rw [List.findSome?_eq_none_iff] at passes ⊢
  intro finding member
  obtain ⟨segment, listed, inside⟩ := List.mem_flatMap.1 member
  have before {other : Finding} (found : other ∈ environment.segmentFindings segment) :
      other.failure? = none := passes other (List.mem_flatMap.2 ⟨segment, listed, found⟩)
  rcases List.mem_cons.1 inside with rfl | inside
  · exact before (List.mem_cons_self ..)
  · obtain ⟨line, stated, rfl⟩ := List.mem_map.1 inside
    obtain ⟨_, goes, speaks⟩ := (mem_segments listed).2.2 line stated
    have passed := before (List.mem_cons_of_mem _ (List.mem_map.2 ⟨line, stated, rfl⟩))
    exact (exists_lines_withSuppressed grows goes speaks passed).1

end Environment

/-- A listing that converts still does when more names are suppressed, with the same labels and
line by line: only the names that are hidden become zero and go to the comments. A line feed is lost
only where the prefix that a hidden name no longer has holds one. -/
theorem Session.convert_withSuppressed {environment : Environment} {names : Suppression}
    (grows : ∀ name ∈ environment.suppressed, name ∈ names) {file source text : Text}
    (converted : ((start file).convert environment source).1 = .ok text) :
    let larger := environment.withSuppressed names
    let symbolPrefix := environment.settings.symbolPrefix
    let parts := segments environment.settings (locations file 0 (Text.lines source))
    let defined := ((start file).convert environment source).2.defined
    let hidden := parts.flatMap fun segment =>
      segment.statements.flatMap (environment.hiddenNames larger)
    ∃ other, ((start file).convert larger source).1 = .ok other ∧
      ((start file).convert larger source).2.defined = defined ∧
      text = environment.settings.listingText environment.translation parts defined ∧
      other = environment.settings.listingText larger.translation parts defined ∧
      text.count '\n' = other.count '\n' + hidden.length * symbolPrefix.count '\n' ∧
      ∀ segment ∈ parts, ∀ line ∈ segment.statements, ∃ before after,
        environment.translation line = before.render symbolPrefix ++ ['\n'] ∧
        larger.translation line = after.render symbolPrefix ++ ['\n'] ∧
        environment.Hides larger line.raw before after := by
  intro larger symbolPrefix parts defined hidden
  have passes := passes_of_convert converted
  have passesToo := Environment.passes_withSuppressed grows passes
  have lines : ∀ segment ∈ parts, ∀ line ∈ segment.statements, ∃ before after,
      environment.translation line = before.render symbolPrefix ++ ['\n'] ∧
      larger.translation line = after.render symbolPrefix ++ ['\n'] ∧
      environment.Hides larger line.raw before after := by
    intro segment member line listed
    obtain ⟨_, goes, speaks⟩ := (mem_segments member).2.2 line listed
    have passed := passes_statement passes member listed
    exact (Environment.exists_lines_withSuppressed grows goes speaks passed).2
  obtain ⟨labels, printed⟩ := convert_of_passes passes
  obtain ⟨labelsToo, printedToo⟩ := convert_of_passes passesToo
  have same : ((start file).convert larger source).2.defined = defined :=
    labelsToo.trans labels.symm
  have text_eq : text = environment.settings.listingText environment.translation parts defined :=
    Except.ok.inj (converted.symm.trans printed)
  have other_eq : ((start file).convert larger source).1 =
      .ok (environment.settings.listingText larger.translation parts defined) := by
    rw [← same]
    exact printedToo
  refine ⟨_, other_eq, same, text_eq, rfl, ?_, lines⟩
  rw [text_eq]
  apply Settings.count_listingText
  intro segment member line listed
  obtain ⟨before, after, translated, translatedToo, hides⟩ := lines segment member line listed
  have counted := hides.count_render
  dsimp only at counted
  rw [translated, translatedToo, List.count_append, List.count_append, counted]
  exact Nat.add_right_comm ..

/-- One name is listed already, and another one is listed later. -/
theorem Session.convert_withSuppressed_later :
    let environment : Environment := ⟨.standard, .empty, .ofText ['g']⟩
    let names : Suppression := .ofText "f\ng".toList
    let source := "_data segment\nt dd f, g, 1, h, f\n_data ends\n".toList
    let before := ("\n.data\n.align 4\n_t:\t\t  .long _f, 0, 1, _h, _f\t\t# g\n" ++
      "\n.global _t\n").toList
    let after := ("\n.data\n.align 4\n_t:\t\t  .long 0, 0, 1, _h, 0\t\t# f, g, f\n" ++
      "\n.global _t\n").toList
    (∀ name ∈ environment.suppressed, name ∈ names) ∧
      ((start []).convert environment source).1 = .ok before ∧
      ((start []).convert (environment.withSuppressed names) source).1 = .ok after ∧
      ((start []).convert (environment.withSuppressed names) source).2.defined =
        ((start []).convert environment source).2.defined := by
  intro environment names source before after
  have grows : ∀ name ∈ environment.suppressed, name ∈ names := by
    intro name listed
    rw [Suppression.mem_ofText] at listed ⊢
    have first : Suppression.namesOf ['g'] = [['g']] := by decide +kernel
    have second : Suppression.namesOf "f\ng".toList = [['f'], ['g']] := by decide +kernel
    rw [first] at listed
    rw [second]
    exact List.mem_cons_of_mem _ listed
  have converted : ((start []).convert environment source).1 = .ok before := by decide +kernel
  obtain ⟨_, _, same, _⟩ := convert_withSuppressed grows converted
  exact ⟨grows, converted, by decide +kernel, same⟩

/-- A prefix may be a line feed, which is lost with the name behind it. -/
theorem Session.convert_withSuppressed_lineFeed :
    let environment : Environment :=
      ⟨{ Settings.standard with symbolPrefix := ['\n'] }, .empty, ∅⟩
    let names : Suppression := .ofText ['f']
    let source := "_data segment\nt dd f\n_data ends\n".toList
    let before := "\n.data\n.align 4\n\nt:\t\t  .long \nf\n\n.global \nt\n".toList
    let after := "\n.data\n.align 4\n\nt:\t\t  .long 0\t\t# f\n\n.global \nt\n".toList
    (∀ name ∈ environment.suppressed, name ∈ names) ∧
      ((start []).convert environment source).1 = .ok before ∧
      ((start []).convert (environment.withSuppressed names) source).1 = .ok after ∧
      before.count '\n' = 9 ∧ after.count '\n' = 8 := by
  intro environment names source before after
  have grows : ∀ name ∈ environment.suppressed, name ∈ names := by
    intro name listed
    exact absurd listed Std.TreeSet.not_mem_emptyc
  exact ⟨grows, by decide +kernel, by decide +kernel, by decide, by decide⟩

end DataSegment
