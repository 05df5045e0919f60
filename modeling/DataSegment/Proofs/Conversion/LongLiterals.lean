import DataSegment.Proofs.Conversion.Composition
import DataSegment.Proofs.Conversion.Literals
import DataSegment.Proofs.Conversion.Safety

namespace DataSegment

open Assembly Listing

namespace Listing

/-- The words of a declaration behind its directive, as they stand in the source. -/
def operandWords (line : Text) : List Word :=
  (words line).drop
    (if ((keptWords line).head?.bind Width.ofDirective?).isSome then 1 else 2)

/-- The operands of a declaration are what is kept of these words. -/
theorem map_text_operandWords {line : Text} {declaration : Declaration}
    (entry : Entry.ofWords (keptWords line) = .declaration declaration) :
    (operandWords line).map Word.text = declaration.operands := by
  rw [operandWords, List.map_drop, ← keptWords]
  generalize keptWords line = kept at entry ⊢
  unfold Entry.ofWords at entry
  split at entry
  · contradiction
  · split at entry <;> contradiction
  · rename_i first second rest
    split at entry
    · contradiction
    · split at entry
      · contradiction
      · split at entry
        · contradiction
        · unfold Entry.ofDeclaration at entry
          split at entry
          · rename_i width directive
            obtain rfl := Entry.declaration.inj entry
            rw [List.head?_cons, Option.bind_some, directive]
            rfl
          · rename_i label
            split at entry
            · obtain rfl := Entry.declaration.inj entry
              rw [List.head?_cons, Option.bind_some, label]
              rfl
            · contradiction

namespace Quoted

variable {content kept : Text}

/-- What is kept of a literal ends between the two quotes that stand for one. -/
def Halved (content kept : Text) : Prop :=
  kept ++ ['\''] <+: content ∧ (literal kept).length = Word.limit

/-- What is kept is a literal of its own then. -/
theorem Halved.take_literal (halved : Halved content kept) :
    (literal content).take Word.limit = literal kept := by
  obtain ⟨⟨rest, rfl⟩, whole⟩ := halved
  have parts : literal (kept ++ ['\''] ++ rest) =
      literal kept ++ '\'' :: (double rest ++ ['\'']) := by
    simp [literal, double]
  rw [parts, ← whole, List.take_left]

/-- The start of quoted text has no closing quote unless it ends inside a doubled one. -/
theorem ofBody_take_double (content : Text) (count : Nat) :
    (∃ kept, kept ++ ['\''] <+: content ∧
      (double content).take count = double kept ++ ['\'']) ∨
      ofBody ((double content).take count) = .unclosed := by
  induction content generalizing count with
  | nil => exact .inr (by rw [double, List.flatMap_nil, List.take_nil, ofBody])
  | cons letter content inductionHypothesis =>
      cases count with
      | zero => exact .inr (by rw [List.take_zero, ofBody])
      | succ count =>
          rw [double_cons]
          by_cases quote : letter = '\''
          · subst quote
            rw [if_pos rfl, List.cons_append, List.take_succ_cons, List.singleton_append]
            cases count with
            | zero => exact .inl ⟨[], ⟨content, rfl⟩, by rw [List.take_zero]; rfl⟩
            | succ count =>
                rw [List.take_succ_cons]
                rcases inductionHypothesis count with ⟨kept, ⟨rest, found⟩, same⟩ | unclosed
                · exact .inl ⟨'\'' :: kept, ⟨rest, by rw [← found]; rfl⟩, by
                    rw [same, double_cons]; rfl⟩
                · exact .inr (by rw [ofBody, unclosed]; rfl)
          · rw [if_neg quote, List.singleton_append, List.take_succ_cons]
            rcases inductionHypothesis count with ⟨kept, ⟨rest, found⟩, same⟩ | unclosed
            · exact .inl ⟨letter :: kept, ⟨rest, by rw [← found]; rfl⟩, by
                rw [same, double_cons, if_neg quote]; rfl⟩
            · exact .inr (by rw [ofBody_cons_of_ne quote, unclosed]; rfl)

/-- A literal that is too long is read as its start, or not at all. -/
theorem stringPieces_of_long (long : Word.limit < (literal content).length) :
    (∃ kept, Halved content kept ∧
      stringPieces ((literal content).take Word.limit) = .ok (kept.map .quoted)) ∨
    ((∀ kept, ¬Halved content kept) ∧
      stringPieces ((literal content).take Word.limit) =
        .error (.openQuote (((literal content).take Word.limit).drop 1))) := by
  have inside : Word.limit - 1 ≤ (double content).length := by
    rw [literal, List.length_cons, List.length_append, List.length_singleton] at long
    omega
  have cut : (literal content).take Word.limit =
      '\'' :: (double content).take (Word.limit - 1) :=
    congrArg (List.cons '\'') (List.take_append_of_le_length inside)
  by_cases halved : ∃ kept, Halved content kept
  · obtain ⟨kept, halved⟩ := halved
    refine .inl ⟨kept, halved, ?_⟩
    rw [halved.take_literal, literal, stringPieces, ofBody_double]
  · refine .inr ⟨fun kept found => halved ⟨kept, found⟩, ?_⟩
    rcases ofBody_take_double content (Word.limit - 1) with ⟨kept, start, same⟩ | unclosed
    · have size := congrArg List.length same
      rw [List.length_take_of_le inside] at size
      exact absurd ⟨kept, start, by rw [literal, List.length_cons, ← size]; rfl⟩ halved
    · rw [cut, stringPieces, unclosed]
      rfl

end Quoted

/-- Quoted text keeps its place in a string. -/
theorem Declaration.Strings.exists_pieces {declaration : Declaration} {line : Line} {word : Text}
    (strings : declaration.Strings line) (member : word ∈ declaration.operands)
    (quoted : startsQuoted word = true) :
    ∃ pieces ended before after, stringPieces word = .ok pieces ∧
      line.statement = .string ended (before ++ pieces ++ after) := by
  cases strings with
  | @intro label first others statement filled starts made =>
      unfold stringStatement at made
      split at made
      · rename_i fragment same
        obtain ⟨pieces, read, rfl⟩ := Results.map_eq_ok_iff.1 made
        have listed : word ∈ [fragment, ['0']] := same ▸ member
        rcases List.mem_cons.1 listed with rfl | zero
        · exact ⟨pieces, true, [], [], read, by rw [List.nil_append, List.append_nil]⟩
        · rw [List.mem_singleton.1 zero] at quoted
          contradiction
      · obtain ⟨all, each, rfl⟩ := Results.map_eq_ok_iff.1 made
        obtain ⟨pieces, found, read⟩ :=
          Results.exists_of_mem_left (Results.mapM_eq_ok_iff.1 each) member
        obtain ⟨before, after, rfl⟩ := List.append_of_mem found
        exact ⟨pieces, false, before.flatten, after.flatten, read, by simp⟩

end Listing

/-- Quoted text among bytes becomes a part of a string, or is a name behind `offset`. -/
theorem Environment.declarationLine_bytes {environment : Environment} {declaration : Declaration}
    {line : Line} {word : Text} (converted : environment.declarationLine declaration = .ok line)
    (bytes : declaration.width = .byte) (member : word ∈ declaration.operands)
    (quoted : startsQuoted word = true) :
    (∃ pieces ended before after, stringPieces word = .ok pieces ∧
      line.statement = .string ended (before ++ pieces ++ after)) ∨
    (declaration.Offsets word ∧ environment.Refers line word) := by
  have quote := mem_of_startsQuoted quoted
  obtain ⟨unread, _⟩ := number?_eq_none_of_mem quote (by decide)
  rcases declarationLine_eq_ok_iff.1 converted with
    strings | ⟨rest, fills⟩ | packs | points | lists
  · exact .inl (strings.exists_pieces member quoted)
  · rw [startsQuoted_of_isRepeat (fills.eq_pair_of_unread member unread).1] at quoted
    contradiction
  · rw [(packs.eq_singleton member).1] at bytes
    contradiction
  · cases points with
    | intro _ wide =>
        dsimp only at bytes
        rw [bytes] at wide
        contradiction
  · obtain ⟨place, refers⟩ := lists.refers member quote (by decide)
    refine .inr ⟨place.resolve_left ?_, refers⟩
    rintro ⟨double, _⟩
    rw [bytes] at double
    contradiction

/-- Quoted text of bytes that is too long is remarked upon and not read, so that the listing fails,
unless what is kept of it ends inside a doubled quote or it is a name behind `offset`. In the first
case the listing has the start of the text. -/
theorem Session.convert_longLiteral {environment : Environment} {session : Session} {source : Text}
    {segment : Segment} {line : Location} {declaration : Declaration} {word : Word} {content : Text}
    (member : segment ∈ segments environment.settings
      (locations session.file session.line (Text.lines source)))
    (stated : line ∈ segment.statements)
    (entry : Entry.ofWords (keptWords line.raw) = .declaration declaration)
    (bytes : declaration.width = .byte) (operand : word ∈ operandWords line.raw)
    (closed : word.source = Quoted.literal content) (long : Word.limit < word.source.length) :
    .truncated word.text ∈ (environment.readInside line.raw).remarks ∧
    ((∃ kept, Quoted.Halved content kept ∧
      stringPieces word.text = .ok (kept.map .quoted)) ∨
    ((∀ kept, ¬Quoted.Halved content kept) ∧
      stringPieces word.text = .error (.openQuote (word.text.drop 1)))) ∧
    ((∃ failure, (session.convert environment source).1 = .error failure) ∨
      ∃ data, environment.translation line =
          data.render environment.settings.symbolPrefix ++ ['\n'] ∧
        ((∃ kept ended before after, Quoted.Halved content kept ∧
          data.statement = .string ended (before ++ kept.map .quoted ++ after)) ∨
        (declaration.Offsets word.text ∧ environment.Refers data word.text))) := by
  have text : word.text = (Quoted.literal content).take Word.limit := by rw [Word.text, closed]
  have read := Quoted.stringPieces_of_long (closed ▸ long)
  rw [← text] at read
  refine ⟨?_, read, ?_⟩
  · have listed : word ∈ words line.raw := List.mem_of_mem_drop operand
    refine List.mem_append_left _ (List.mem_map.2 ⟨word, List.mem_filter.2 ⟨listed, ?_⟩, rfl⟩)
    exact decide_eq_true long
  · cases converted : (session.convert environment source).1 with
    | error failure => exact .inl ⟨failure, rfl⟩
    | ok result =>
        have passes := passes_statement (passes_of_convert converted) member stated
        obtain ⟨data, made, translated⟩ := Environment.exists_line_of_passes entry passes
        have named : word.text ∈ declaration.operands := by
          rw [← map_text_operandWords entry]
          exact List.mem_map.2 ⟨word, operand, rfl⟩
        have quoted : startsQuoted word.text = true := by rw [text]; rfl
        refine .inr ⟨data, translated, ?_⟩
        refine (Environment.declarationLine_bytes made bytes named quoted).imp_left ?_
        rintro ⟨pieces, ended, before, after, found, statement⟩
        -- The literal was read, so that it is read as its start.
        rcases read with ⟨kept, halved, start⟩ | ⟨_, failed⟩
        · obtain rfl := Except.ok.inj (found.symm.trans start)
          exact ⟨kept, ended, before, after, halved, statement⟩
        · rw [found] at failed
          contradiction

/-- One letter too many leaves the literal without its closing quote. -/
theorem Session.convert_longLiteral_unclosed :
    let line := "db '".toList ++ List.replicate 254 'a' ++ ['\'']
    let source := "_data segment\n".toList ++ line ++ "\n_data ends\n".toList
    words line = [⟨"db".toList⟩, ⟨Quoted.literal (List.replicate 254 'a')⟩] ∧
      ∃ failure, ((start []).convert ⟨.standard, .empty, ∅⟩ source).1 = .error failure := by
  intro line source
  have parts : words line = [⟨"db".toList⟩, ⟨Quoted.literal (List.replicate 254 'a')⟩] := by
    decide +kernel
  have member : Segment.mk ⟨[], 1, "_data segment".toList⟩ [⟨[], 2, line⟩] ∈
      segments .standard (locations [] 0 (Text.lines source)) := by decide +kernel
  have entry : Entry.ofWords (keptWords line) = .declaration ⟨none, .byte,
      [(Quoted.literal (List.replicate 254 'a')).take Word.limit]⟩ := by decide +kernel
  obtain ⟨_, _, outcome⟩ := @convert_longLiteral ⟨.standard, .empty, ∅⟩ (start []) source _
    ⟨[], 2, line⟩ _ ⟨Quoted.literal (List.replicate 254 'a')⟩ (List.replicate 254 'a') member
    (by decide +kernel) entry rfl (by decide +kernel) rfl (by decide +kernel)
  refine ⟨parts, outcome.resolve_right ?_⟩
  rintro ⟨data, _, ⟨kept, _, _, _, halved, _⟩ | ⟨behind, _⟩⟩
  · have quote : '\'' ∈ List.replicate 254 'a' := halved.1.subset (by simp)
    exact absurd (List.eq_of_mem_replicate quote) (by decide)
  · exact absurd behind (by decide +kernel)

/-- The cut between the quotes of a doubled one leaves a literal without the rest. -/
theorem Session.convert_longLiteral_halved :
    let line := "db '".toList ++ List.replicate 253 'a' ++ "''b'".toList
    let source := "_data segment\n".toList ++ line ++ "\n_data ends\n".toList
    words line = [⟨"db".toList⟩, ⟨Quoted.literal (List.replicate 253 'a' ++ "'b".toList)⟩] ∧
      Word.limit < (Quoted.literal (List.replicate 253 'a' ++ "'b".toList)).length ∧
      ((start []).convert ⟨.standard, .empty, ∅⟩ source).1 =
        .ok ("\n.data\n.align 4\n\t\t  .ascii \"".toList ++ List.replicate 253 'a' ++
          "\"\n\n".toList) := by
  intro line source
  exact ⟨by decide +kernel, by decide +kernel, by decide +kernel⟩

end DataSegment
