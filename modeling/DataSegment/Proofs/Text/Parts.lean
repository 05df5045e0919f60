import DataSegment.Text.Search
import DataSegment.Text.White
import Mathlib.Data.List.Infix

namespace DataSegment.Text

theorem dropWhile_of_head? {test : Char → Bool} {text : Text}
    (stops : ∀ letter, text.head? = some letter → test letter = false) :
    text.dropWhile test = text := by
  cases text with
  | nil => rfl
  | cons letter rest => exact List.dropWhile_cons_of_neg (by simp [stops letter rfl])

/-- A text that neither starts nor ends with white space is trimmed already. -/
theorem trim_of_solid_ends {text : Text}
    (first : ∀ letter, text.head? = some letter → isWhite letter = false)
    (last : ∀ letter, text.getLast? = some letter → isWhite letter = false) : trim text = text := by
  rw [trim, trimStart, dropWhile_of_head? first, trimEnd, dropWhile_of_head?, List.reverse_reverse]
  intro letter found
  exact last letter (by rwa [List.head?_reverse] at found)

/-- A space in front of a text is trimmed. -/
theorem trim_cons_space (text : Text) : trim (' ' :: text) = trim text := by
  rw [trim, trimStart, List.dropWhile_cons_of_pos (by decide), trim, trimStart]

/-- White space at the end does not change how a text starts. -/
theorem head?_trimStart_append_white {letter : Char} (white : isWhite letter = true)
    (text : Text) : (trimStart (text ++ [letter])).head? = (trimStart text).head? := by
  rw [trimStart, trimStart, List.dropWhile_append]
  split
  · rename_i empty
    simp [List.isEmpty_iff.1 empty, white]
  · rename_i filled
    rw [List.head?_append, Option.or_of_isSome (by simpa using filled)]

theorem trim_append_white {letter : Char} (white : isWhite letter = true) (text : Text) :
    trim (text ++ [letter]) = trim text := by
  rw [trim, trim, trimStart, trimStart, List.dropWhile_append]
  split
  · rename_i empty
    simp [List.isEmpty_iff.1 empty, white]
  · rw [trimEnd, trimEnd, List.reverse_append, List.reverse_singleton, List.singleton_append,
      List.dropWhile_cons_of_pos white]

theorem trimEnd_cons_solid {letter : Char} (solid : isWhite letter = false) (rest : Text) :
    trimEnd (letter :: rest) = letter :: trimEnd rest := by
  rw [trimEnd, trimEnd, List.reverse_cons, List.dropWhile_append]
  split
  · rename_i empty
    rw [List.isEmpty_iff.1 empty, List.dropWhile_cons_of_neg (by simp [solid])]
    rfl
  · rw [List.reverse_append, List.reverse_singleton, List.singleton_append]

/-- Trimming the end of a text does not change how it starts. -/
theorem head?_trim (text : Text) : (trim text).head? = (trimStart text).head? := by
  rw [trim]
  cases found : trimStart text with
  | nil => rfl
  | cons letter rest =>
      have solid : isWhite letter = false := by
        have stops := List.head?_dropWhile_not isWhite text
        rw [← trimStart, found] at stops
        exact stops
      rw [trimEnd_cons_solid solid, List.head?_cons, List.head?_cons]

/-- A trimmed text has no white space to trim. -/
theorem trim_trim (text : Text) : trim (trim text) = trim text := by
  apply trim_of_solid_ends
  · intro letter first
    have stops := List.head?_dropWhile_not isWhite text
    rw [head?_trim, trimStart] at first
    rw [first] at stops
    exact stops
  · intro letter last
    have stops := List.head?_dropWhile_not isWhite (trimStart text).reverse
    rw [trim, trimEnd, List.getLast?_reverse] at last
    rw [last] at stops
    exact stops

/-- Texts without white space are left as they are. -/
theorem trim_of_solid {text : Text} (solid : ∀ letter ∈ text, isWhite letter = false) :
    trim text = text :=
  trim_of_solid_ends (fun letter first => solid letter (List.mem_of_mem_head? first))
    fun letter last => solid letter (List.mem_of_mem_getLast? last)

/-- A space behind a comma is trimmed off the part that follows. -/
theorem map_trim_splitOnP_space (text : Text) :
    ((' ' :: text).splitOnP (· == ',')).map trim = (text.splitOnP (· == ',')).map trim := by
  rw [List.splitOnP_cons_eq_if_modifyHead, if_neg (by decide)]
  obtain ⟨part, parts, same⟩ := List.exists_cons_of_ne_nil (List.splitOnP_ne_nil (· == ',') text)
  rw [same, List.modifyHead_cons, List.map_cons, List.map_cons, trim_cons_space]

/-- Parts between commas and spaces come back when none of them holds a comma. -/
theorem splitOnP_join {parts : List Text} (filled : parts ≠ [])
    (solid : ∀ part ∈ parts, ∀ letter ∈ part, (letter == ',') = false ∧ isWhite letter = false) :
    ((join [',', ' '] parts).splitOnP (· == ',')).map trim = parts := by
  induction parts with
  | nil => exact absurd rfl filled
  | cons part parts inductionHypothesis =>
      have first := solid part (List.mem_cons_self ..)
      have trimmed : trim part = part := trim_of_solid fun letter member => (first letter member).2
      cases parts with
      | nil =>
          have alone : join [',', ' '] [part] = part := by simp [join]
          rw [alone, List.splitOnP_eq_singleton fun letter member => (first letter member).1]
          simp [trimmed]
      | cons next parts =>
          have others := inductionHypothesis (by simp) fun other member =>
            solid other (List.mem_cons_of_mem _ member)
          have parted : join [',', ' '] (part :: next :: parts) =
              part ++ ',' :: ' ' :: join [',', ' '] (next :: parts) := by
            simp [join, List.intercalate_cons_cons]
          rw [parted, List.splitOnP_append_cons _ _ (by decide),
            List.splitOnP_eq_singleton fun letter member => (first letter member).1]
          rw [List.singleton_append, List.map_cons, trimmed, map_trim_splitOnP_space, others]

/-- A pattern is found where it stands when it does not start earlier. -/
theorem breakOn?_append {pattern before : Text} (first : ¬pattern <:+: before ++ pattern.dropLast)
    (after : Text) : breakOn? pattern (before ++ (pattern ++ after)) = some (before, after) := by
  induction before with
  | nil =>
      cases pattern with
      | nil => cases after <;> rfl
      | cons letter pattern =>
          rw [List.nil_append, List.cons_append, breakOn?, ← List.cons_append, after?_append]
  | cons letter before inductionHypothesis =>
      have later : ¬pattern <:+: before ++ pattern.dropLast :=
        fun found => first (found.trans (List.suffix_cons letter _).isInfix)
      have here : after? pattern (letter :: (before ++ (pattern ++ after))) = none := by
        cases found : after? pattern (letter :: (before ++ (pattern ++ after))) with
        | none => rfl
        | some rest =>
            refine absurd ?_ first
            have starts : pattern <+: (letter :: before) ++ (pattern ++ after) :=
              ⟨rest, (eq_append_of_after? found).symm⟩
            have whole : (letter :: before) ++ pattern.dropLast <+:
                (letter :: before) ++ (pattern ++ after) :=
              (List.prefix_append_right_inj _).2
                ((List.dropLast_prefix pattern).trans (List.prefix_append pattern after))
            refine (List.prefix_of_prefix_length_le starts whole ?_).isInfix
            simp only [List.cons_append, List.length_cons, List.length_append, List.length_dropLast]
            omega
      rw [List.cons_append, breakOn?, here, inductionHypothesis later]
      rfl

theorem breakOn?_eq_none {pattern text : Text} (absent : ¬pattern <:+: text) :
    breakOn? pattern text = none := by
  cases found : breakOn? pattern text with
  | none => rfl
  | some halves => exact absurd ⟨halves.1, halves.2, (eq_append_of_breakOn? found).symm⟩ absent

/-- The half in front of the first occurrence of a pattern holds none, nor does one start there. -/
theorem first_of_breakOn? {pattern text before after : Text} (filled : pattern ≠ [])
    (broken : breakOn? pattern text = some (before, after)) :
    ¬pattern <:+: before ++ pattern.dropLast := by
  have shorter : pattern.dropLast.length < pattern.length := by
    rw [List.length_dropLast]
    have := List.length_pos_iff.2 filled
    omega
  induction text generalizing before with
  | nil =>
      rw [breakOn?, if_neg (by simpa using filled)] at broken
      contradiction
  | cons letter text inductionHypothesis =>
      unfold breakOn? at broken
      split at broken
      · obtain ⟨rfl, rfl⟩ := Prod.mk.inj (Option.some.inj broken)
        intro found
        rw [List.nil_append] at found
        exact absurd found.length_le (by omega)
      · rename_i missing
        obtain ⟨⟨front, back⟩, later, same⟩ := Option.map_eq_some_iff.1 broken
        obtain ⟨rfl, rfl⟩ := Prod.mk.inj same
        intro found
        rcases List.infix_cons_iff.1 found with starts | inside
        · have whole := eq_append_of_breakOn? later
          have longer : letter :: (front ++ pattern.dropLast) <+: letter :: text := by
            rw [whole, List.append_assoc]
            exact List.prefix_cons_inj letter |>.2 ((List.prefix_append_right_inj front).2
              ((List.dropLast_prefix pattern).trans (List.prefix_append pattern back)))
          obtain ⟨rest, same⟩ := starts.trans longer
          rw [← same, after?_append] at missing
          contradiction
        · exact inductionHypothesis later inside

/-- A text is split where the pattern stands for the first time. -/
theorem breakOn?_eq_some_iff {pattern text before after : Text} (filled : pattern ≠ []) :
    breakOn? pattern text = some (before, after) ↔
      text = before ++ pattern ++ after ∧ ¬pattern <:+: before ++ pattern.dropLast := by
  constructor
  · exact fun broken => ⟨eq_append_of_breakOn? broken, first_of_breakOn? filled broken⟩
  · rintro ⟨rfl, first⟩
    rw [List.append_assoc]
    exact breakOn?_append first after

theorem breakOn?_eq_none_iff {pattern text : Text} (filled : pattern ≠ []) :
    breakOn? pattern text = none ↔ ¬pattern <:+: text := by
  refine ⟨fun missing found => ?_, breakOn?_eq_none⟩
  induction text with
  | nil => exact filled (List.infix_nil.1 found)
  | cons letter text inductionHypothesis =>
      unfold breakOn? at missing
      split at missing
      · contradiction
      · rename_i absent
        rcases List.infix_cons_iff.1 found with ⟨rest, same⟩ | inside
        · rw [← same, after?_append] at absent
          contradiction
        · exact inductionHypothesis (Option.map_eq_none_iff.1 missing) inside

theorem breakOn?_singleton_iff {letter : Char} {text head after : Text} :
    breakOn? [letter] text = some (head, after) ↔
      text = head ++ letter :: after ∧ letter ∉ head := by
  rw [breakOn?_eq_some_iff (by simp), List.dropLast_singleton, List.append_nil,
    List.append_assoc, List.singleton_append, List.singleton_infix_iff]

/-- Two neighbours stand in one of two texts or where these meet. -/
theorem infix_pair_append {first second : Text} {letter next : Char}
    (found : [letter, next] <:+: first ++ second) :
    [letter, next] <:+: first ∨ [letter, next] <:+: second ∨
      (first.getLast? = some letter ∧ second.head? = some next) := by
  induction first with
  | nil => exact .inr (.inl found)
  | cons head first inductionHypothesis =>
      rcases List.infix_cons_iff.1 found with starts | later
      · obtain ⟨rfl, after⟩ := List.cons_prefix_cons.1 starts
        cases first with
        | nil =>
            obtain ⟨rest, same⟩ := after
            have start : second = next :: rest := same.symm
            exact .inr (.inr ⟨rfl, by rw [start, List.head?_cons]⟩)
        | cons other first =>
            obtain ⟨rfl, _⟩ := List.cons_prefix_cons.1 after
            exact .inl ⟨[], first, rfl⟩
      · rcases inductionHypothesis later with inFirst | inSecond | ⟨last, start⟩
        · exact .inl (inFirst.trans (List.suffix_cons head first).isInfix)
        · exact .inr (.inl inSecond)
        · refine .inr (.inr ⟨?_, start⟩)
          rw [List.getLast?_cons, last, Option.getD_some]

/-- Neighbours are kept apart by a character between two texts. -/
theorem infix_pair_append_cons {first second : Text} {letter next glue : Char}
    (apart : letter ≠ glue) (other : next ≠ glue)
    (found : [letter, next] <:+: first ++ glue :: second) :
    [letter, next] <:+: first ∨ [letter, next] <:+: second := by
  rcases infix_pair_append found with inFirst | inSecond | ⟨_, start⟩
  · exact .inl inFirst
  · rcases List.infix_cons_iff.1 inSecond with starts | later
    · exact absurd (List.cons_prefix_cons.1 starts).1 apart
    · exact .inr later
  · exact absurd (Option.some.inj start).symm other

/-- A text that lacks a character ends before it. -/
theorem prefix_of_prefix_append_cons {pattern second : Text} {glue : Char} (first : Text)
    (absent : glue ∉ pattern) (found : pattern <+: first ++ glue :: second) :
    pattern <+: first := by
  rcases List.prefix_or_prefix_of_prefix found (List.prefix_append first _) with inside | longer
  · exact inside
  · obtain ⟨rest, rfl⟩ := longer
    rw [List.prefix_append_right_inj] at found
    cases rest with
    | nil => exact ⟨[], by simp⟩
    | cons letter rest =>
        obtain rfl := (List.cons_prefix_cons.1 found).1
        exact absurd (List.mem_append_right first (List.mem_cons_self ..)) absent

/-- A text that lacks a character stands in front of it or behind it. -/
theorem infix_append_cons_of_not_mem {pattern second : Text} {glue : Char} (first : Text)
    (absent : glue ∉ pattern) (found : pattern <:+: first ++ glue :: second) :
    pattern <:+: first ∨ pattern <:+: second := by
  induction first with
  | nil =>
      rcases List.infix_cons_iff.1 found with starts | later
      · exact .inl (prefix_of_prefix_append_cons [] absent starts).isInfix
      · exact .inr later
  | cons head first inductionHypothesis =>
      rcases List.infix_cons_iff.1 found with starts | later
      · exact .inl (prefix_of_prefix_append_cons (head :: first) absent starts).isInfix
      · exact (inductionHypothesis later).imp_left fun inside =>
          inside.trans (List.suffix_cons head first).isInfix

/-- The first occurrence of a pattern is the same in a longer text. -/
theorem breakOn?_append_of_some {pattern text before after : Text} (filled : pattern ≠ [])
    (found : breakOn? pattern text = some (before, after)) (rest : Text) :
    breakOn? pattern (text ++ rest) = some (before, after ++ rest) := by
  rw [breakOn?_eq_some_iff filled] at found ⊢
  exact ⟨by simp [found.1], found.2⟩

/-- A pattern that lacks a character is searched for behind it when it does not stand in front. -/
theorem breakOn?_append_cons {pattern first : Text} {glue : Char} (filled : pattern ≠ [])
    (absent : glue ∉ pattern) (missing : ¬pattern <:+: first) (rest : Text) :
    breakOn? pattern (first ++ glue :: rest) =
      (breakOn? pattern rest).map fun halves => (first ++ glue :: halves.1, halves.2) := by
  cases found : breakOn? pattern rest with
  | none =>
      rw [breakOn?_eq_none_iff filled] at found
      exact breakOn?_eq_none fun inside =>
        (infix_append_cons_of_not_mem first absent inside).elim missing found
  | some halves =>
      obtain ⟨rfl, earliest⟩ := (breakOn?_eq_some_iff filled).1 found
      refine (breakOn?_eq_some_iff filled).2 ⟨by simp, fun inside => ?_⟩
      rw [List.append_assoc, List.cons_append] at inside
      exact (infix_append_cons_of_not_mem first absent inside).elim missing earliest

/-- White space in front of a text adds no place for a pattern without white space. -/
theorem infix_of_infix_white_append {pattern run text : Text}
    (solid : ∀ letter ∈ pattern, isWhite letter = false)
    (white : ∀ letter ∈ run, isWhite letter = true) (found : pattern <:+: run ++ text) :
    pattern <:+: text := by
  induction run with
  | nil => exact found
  | cons letter run inductionHypothesis =>
      obtain ⟨first, others⟩ := List.forall_mem_cons.1 white
      have absent : letter ∉ pattern := by
        intro member
        rw [solid letter member] at first
        contradiction
      rcases infix_append_cons_of_not_mem [] absent found with empty | later
      · rw [List.infix_nil.1 empty]
        exact List.nil_infix
      · exact inductionHypothesis others later

end DataSegment.Text
