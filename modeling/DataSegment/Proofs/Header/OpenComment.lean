import DataSegment.Proofs.Header.Comments
import DataSegment.Proofs.Header.Concatenation

namespace DataSegment.Header

open Text

namespace Scan

/-- The line of an open comment is the first of the last lines that all end inside a comment. -/
theorem exists_opened {text : Text} (inside : EndsInside text) :
    ∃ front, IsWhole front ∧ front <+: text ∧ ¬EndsInside front ∧
      (final text).opened = front.count '\n' + 1 ∧
      ∀ other, IsWhole other → other <+: text → front.length < other.length → EndsInside other := by
  induction text using lastLine with
  | nil =>
      rw [← inside_final_iff] at inside
      contradiction
  | line front line ending whole isLine inductionHypothesis =>
      have last := inside
      rw [← inside_final_iff, final_append whole isLine, inside_readLine] at last
      rw [final_append whole isLine, opened_readLine, last, Bool.and_true]
      by_cases earlier : EndsInside front
      · obtain ⟨start, isWhole, first, outside, opened, later⟩ := inductionHypothesis earlier
        rw [inside_final_iff.2 earlier]
        refine ⟨start, isWhole, first.trans (List.prefix_append ..), outside, opened, ?_⟩
        intro other otherWhole found longer
        rcases otherWhole.prefix_append_line isLine found with early | rfl
        · exact later other otherWhole early longer
        · exact inside
      · have closed : (final front).inside = false := by
          rwa [← Bool.not_eq_true, inside_final_iff]
        rw [closed]
        refine ⟨front, whole, List.prefix_append .., earlier, rfl, ?_⟩
        intro other otherWhole found longer
        rcases otherWhole.prefix_append_line isLine found with early | rfl
        · exact absurd early.length_le (by omega)
        · exact inside

end Scan

/-- Lines that reach past the line of the mark of an open comment end inside the comment. -/
theorem OpensComment.endsInside_of_prefix {text before after front : Text}
    (opens : OpensComment text before after) (whole : IsWhole front) (found : front <+: text)
    (longer : (wholeLines before).length < front.length) : EndsInside front := by
  obtain ⟨parts, code, unclosed⟩ := opens
  have apart := wholeLines_append_openLine before
  have solid := not_mem_openLine before
  have start : wholeLines before <+: text := by
    rw [parts]
    exact (isPrefix_wholeLines before).trans (List.prefix_append ..)
  obtain ⟨more, rfl⟩ := (List.prefix_or_prefix_of_prefix found start).resolve_left fun short =>
    absurd short.length_le (by omega)
  have behind : more <+: (openLine before ++ ['/', '*']) ++ after := by
    have whole : text = wholeLines before ++ ((openLine before ++ ['/', '*']) ++ after) := by
      rw [← List.append_assoc, ← List.append_assoc, apart, List.append_assoc]
      exact parts
    rwa [whole, List.prefix_append_right_inj] at found
  -- The lines end in a line feed, and none stands in front of the comment on its line.
  have reaches : openLine before ++ ['/', '*'] <+: more := by
    refine (List.prefix_or_prefix_of_prefix behind (List.prefix_append ..)).resolve_left ?_
    intro short
    obtain rfl | ⟨body, letter, rfl⟩ := List.eq_nil_or_concat' more
    · simp at longer
    · obtain rfl := whole letter (by simp)
      have member : '\n' ∈ openLine before ++ ['/', '*'] := short.subset (by simp)
      simp [solid] at member
  obtain ⟨content, rfl⟩ := reaches
  rw [List.prefix_append_right_inj] at behind
  refine ⟨before, content, ?_, code.of_head? rfl, fun closed => unclosed ?_⟩
  · rw [← List.append_assoc, ← List.append_assoc, apart, List.append_assoc]
    rfl
  · exact closed.trans behind.isInfix

/-- An open comment is reported on its own line or in front of it, and on its own line exactly when
no comment is open where that line starts. -/
theorem OpensComment.opened_le {text before after : Text} (opens : OpensComment text before after) :
    (Scan.final text).opened ≤ before.count '\n' + 1 ∧
      ((Scan.final text).opened = before.count '\n' + 1 ↔ ¬EndsInside (wholeLines before)) := by
  obtain ⟨front, whole, found, outside, opened, later⟩ := Scan.exists_opened ⟨before, after, opens⟩
  have start : wholeLines before <+: text := by
    rw [opens.parts]
    exact (isPrefix_wholeLines before).trans (List.prefix_append ..)
  have short : front.length ≤ (wholeLines before).length := by
    by_contra longer
    exact outside (opens.endsInside_of_prefix whole found (by omega))
  obtain ⟨more, same⟩ := List.prefix_of_prefix_length_le found start short
  have count := congrArg (List.count '\n') same
  rw [List.count_append, count_wholeLines] at count
  rw [opened]
  refine ⟨by omega, ?_, fun free => ?_⟩
  · intro own
    obtain rfl | ⟨body, letter, rfl⟩ := List.eq_nil_or_concat' more
    · rwa [← same, List.append_nil]
    · have last := isWhole_wholeLines before letter (by simp [← same])
      have occurs : 0 < List.count '\n' (body ++ [letter]) :=
        List.count_pos_iff.2 (by simp [last])
      omega
  · obtain rfl | ⟨body, letter, rfl⟩ := List.eq_nil_or_concat' more
    · rw [List.count_nil] at count
      omega
    · refine absurd (later (wholeLines before) (isWhole_wholeLines before) start ?_) free
      rw [← same]
      simp

/-- A text reports the comment that is open at its end. -/
theorem of_openComment_mem_events {text : Text} {line : Nat}
    (member : .openComment line ∈ events text) :
    EndsInside text ∧ line = (Scan.final text).opened := by
  rcases List.mem_append.1 member with member | member
  · obtain ⟨_, _, same⟩ | ⟨_, _, same⟩ := Scan.eq_of_mem_readLines member <;> contradiction
  · change _ ∈ (Scan.final text).finish at member
    unfold Scan.finish at member
    split at member
    · rename_i inside
      obtain rfl := Event.openComment.inj (List.mem_singleton.1 member)
      exact ⟨Scan.inside_final_iff.1 inside, rfl⟩
    · split at member <;> simp at member

namespace Database

variable {read : Text → Option (List UInt8)}

theorem declare_eq_openComment {file path : Text} {line : Nat} {follow : Follow}
    {database : Database} {event : Event}
    (failed : declare file follow database event = .error (.openComment path line)) :
    (path = file ∧ event = .openComment line) ∨
      ∃ start target, event = .inclusion start target ∧
        follow start target database = .error (.openComment path line) := by
  cases event with
  | statement start text =>
      rw [declare] at failed
      split at failed
      · rename_i fault _
        cases fault <;> simp [Fault.locate] at failed
      · contradiction
      · contradiction
  | inclusion start target => exact .inr ⟨start, target, rfl, failed⟩
  | openComment start =>
      obtain ⟨rfl, rfl⟩ := Error.openComment.inj (Except.error.inj failed)
      exact .inl ⟨rfl, rfl⟩
  | openStatement start text => simp [declare] at failed

/-- An open comment is reported for the text that it ends, which is the source or an included
file. -/
theorem exists_text_of_openComment {allowed : Nat} {file directory source path : Text} {line : Nat}
    {database : Database}
    (failed : readText read allowed file directory source database =
      .error (.openComment path line)) :
    ∃ text, (path = file ∧ text = source ∨
        ∃ bytes, read path = some bytes ∧ text = Unicode.decode bytes) ∧
      EndsInside text ∧ line = (Scan.final text).opened := by
  induction allowed generalizing file directory source database with
  | zero =>
      rw [readText_eq] at failed
      obtain ⟨earlier, event, later, state, parts, _, fails⟩ := Results.foldlM_eq_error failed
      obtain ⟨rfl, rfl⟩ | ⟨start, target, _, deep⟩ := declare_eq_openComment fails
      · exact ⟨source, .inl ⟨rfl, rfl⟩, of_openComment_mem_events (by simp [parts])⟩
      · simp [followFrom] at deep
  | succ allowed inductionHypothesis =>
      rw [readText_eq] at failed
      obtain ⟨earlier, event, later, state, parts, _, fails⟩ := Results.foldlM_eq_error failed
      obtain ⟨rfl, rfl⟩ | ⟨start, target, _, deep⟩ := declare_eq_openComment fails
      · exact ⟨source, .inl ⟨rfl, rfl⟩, of_openComment_mem_events (by simp [parts])⟩
      · unfold followFrom at deep
        dsimp only at deep
        split at deep
        · simp at deep
        · rename_i bytes found
          obtain ⟨text, origin, reported⟩ := inductionHypothesis deep
          refine ⟨text, .inr ?_, reported⟩
          obtain ⟨rfl, rfl⟩ | other := origin
          · exact ⟨bytes, found, rfl⟩
          · exact other

/-- A text that is refused for an open comment has one. It is reported on a line at or in front of
the line where the comment begins, and on that line exactly when no other comment is open where the
line starts. -/
theorem readText_openComment {allowed : Nat} {file directory source path : Text} {line : Nat}
    {database : Database}
    (failed : readText read allowed file directory source database =
      .error (.openComment path line)) :
    ∃ text, (path = file ∧ text = source ∨
        ∃ bytes, read path = some bytes ∧ text = Unicode.decode bytes) ∧
      (∃ before after, OpensComment text before after) ∧
      ∀ before after, OpensComment text before after →
        line ≤ before.count '\n' + 1 ∧
          (line = before.count '\n' + 1 ↔ ¬EndsInside (wholeLines before)) := by
  obtain ⟨text, origin, inside, rfl⟩ := exists_text_of_openComment failed
  exact ⟨text, origin, inside, fun before after opens => opens.opened_le⟩

/-- A comment in front of which no other one is open is reported on its line. -/
theorem readText_openComment_single :
    readText (fun _ => none) depthLimit [] ['.'] "int a;\n/* b\n".toList empty =
        .error (.openComment [] 2) ∧
      ∀ before after, OpensComment "int a;\n/* b\n".toList before after →
        (2 = before.count '\n' + 1 ↔ ¬EndsInside (wholeLines before)) := by
  have found : events "int a;\n/* b\n".toList =
      [.statement 1 "int a".toList, .openComment 2] := by decide +kernel
  have data : prototype? (withoutSpecifiers "int a".toList) =
      .ok (some ⟨['a'], "int".toList, .data, .cdecl, [], false⟩) := by decide +kernel
  have failed : readText (fun _ => none) depthLimit [] ['.'] "int a;\n/* b\n".toList empty =
      .error (.openComment [] 2) := by
    rw [readText_eq, found]
    simp only [List.foldlM_cons, declare, data]
    rfl
  refine ⟨failed, ?_⟩
  obtain ⟨text, ⟨_, rfl⟩ | ⟨bytes, missing, _⟩, _, reported⟩ := readText_openComment failed
  · exact fun before after opens => (reported before after opens).2
  · contradiction

/-- A comment that begins behind the end of another one is reported on the line of that one. -/
theorem ofText_openComment_reopened :
    ofText (fun _ => none) [] "/* a\n*/ /* b\n".toList = .error (.openComment [] 1) ∧
      OpensComment "/* a\n*/ /* b\n".toList "/* a\n*/ ".toList " b\n".toList ∧
      "/* a\n*/ ".toList.count '\n' + 1 = 2 := by
  have found : events "/* a\n*/ /* b\n".toList = [.openComment 1] := by decide +kernel
  have code : InCode (('/' :: '*' :: (" a\n".toList ++ ['*', '/'])) ++ [' ']) "/* b\n".toList :=
    .comment (.block (by decide)) (.letter (by decide) (.nil _))
  have comment : "/* a\n*/ ".toList = ('/' :: '*' :: (" a\n".toList ++ ['*', '/'])) ++ [' '] := by
    decide
  refine ⟨?_, ⟨by decide, comment ▸ code, by decide⟩, by decide⟩
  rw [ofText, readText_eq, found]
  rfl

end Database

end DataSegment.Header
