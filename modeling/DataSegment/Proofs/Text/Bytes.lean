import DataSegment.Proofs.Text.Parts
import DataSegment.Text.Unicode

namespace DataSegment.Text.Unicode

theorem foldl_size (text : Text) (start : Nat) :
    text.foldl (fun size letter => size + letter.utf8Size) start = start + size text := by
  induction text generalizing start with
  | nil => rfl
  | cons letter text inductionHypothesis =>
      rw [size, List.foldl_cons, List.foldl_cons, inductionHypothesis, inductionHypothesis,
        Nat.zero_add, Nat.add_assoc]

theorem size_cons (letter : Char) (text : Text) :
    size (letter :: text) = letter.utf8Size + size text := by
  rw [size, List.foldl_cons, foldl_size, Nat.zero_add]

theorem size_append (first rest : Text) : size (first ++ rest) = size first + size rest := by
  rw [size, List.foldl_append, foldl_size, foldl_size, size, foldl_size, Nat.zero_add]

theorem size_append_singleton (text : Text) (letter : Char) :
    size (text ++ [letter]) = size text + letter.utf8Size := by
  rw [size_append, size_cons]
  rfl

/-- What follows a number of bytes. There is nothing to follow bytes that end inside a character or
behind the text. -/
def dropBytes? : Nat → Text → Option Text
  | 0, text => some text
  | _ + 1, [] => none
  | bytes + 1, letter :: rest =>
      if letter.utf8Size ≤ bytes + 1 then dropBytes? (bytes + 1 - letter.utf8Size) rest else none

/-- A number of bytes can be dropped exactly when they are the first characters of the text. -/
theorem dropBytes?_eq_some_iff {bytes : Nat} {text rest : Text} :
    dropBytes? bytes text = some rest ↔ ∃ first, text = first ++ rest ∧ size first = bytes := by
  induction text generalizing bytes with
  | nil =>
      cases bytes with
      | zero => simp [dropBytes?, size]
      | succ bytes =>
          rw [dropBytes?]
          constructor
          · intro found
            contradiction
          · rintro ⟨first, empty, counted⟩
            rw [(List.nil_eq_append_iff.1 empty).1] at counted
            contradiction
  | cons letter text inductionHypothesis =>
      have positive := letter.utf8Size_pos
      cases bytes with
      | zero =>
          rw [dropBytes?, Option.some.injEq]
          constructor
          · rintro rfl
            exact ⟨[], rfl, rfl⟩
          · rintro ⟨first, same, counted⟩
            cases first with
            | nil => exact same
            | cons head first =>
                rw [size_cons] at counted
                have positiveToo := head.utf8Size_pos
                omega
      | succ bytes =>
          rw [dropBytes?]
          constructor
          · intro found
            split at found
            · obtain ⟨first, rfl, counted⟩ := inductionHypothesis.1 found
              refine ⟨letter :: first, rfl, ?_⟩
              rw [size_cons]
              omega
            · contradiction
          · rintro ⟨first, same, counted⟩
            cases first with
            | nil => contradiction
            | cons head first =>
                obtain ⟨rfl, rest⟩ := List.cons.inj same
                rw [size_cons] at counted
                rw [if_pos (by omega)]
                exact inductionHypothesis.2 ⟨first, rest, by omega⟩

theorem dropBytes?_append (first rest : Text) :
    dropBytes? (size first) (first ++ rest) = some rest :=
  dropBytes?_eq_some_iff.2 ⟨first, rfl, rfl⟩

theorem eq_nil_of_size {text : Text} (empty : size text = 0) : text = [] := by
  cases text with
  | nil => rfl
  | cons letter text =>
      rw [size_cons] at empty
      have positive := letter.utf8Size_pos
      omega

theorem utf8ByteSize_ofList (text : Text) : (String.ofList text).utf8ByteSize = size text := by
  induction text with
  | nil => rfl
  | cons letter text inductionHypothesis => rw [size_cons, ← inductionHypothesis]; simp

/-- An offset is valid in a text exactly when it is the size of what stands in front. -/
theorem isValid_iff {text : Text} {offset : Nat} :
    String.Pos.Raw.IsValid (String.ofList text) ⟨offset⟩ ↔
      ∃ first rest, text = first ++ rest ∧ size first = offset := by
  rw [String.Pos.Raw.isValid_iff_exists_append]
  constructor
  · rintro ⟨first, rest, whole, place⟩
    refine ⟨first.toList, rest.toList, ?_, ?_⟩
    · rw [← String.toList_append, ← whole, String.toList_ofList]
    · rw [← utf8ByteSize_ofList, String.ofList_toList]
      exact (congrArg String.Pos.Raw.byteIdx place).symm
  · rintro ⟨first, rest, rfl, rfl⟩
    refine ⟨String.ofList first, String.ofList rest, String.ofList_append, ?_⟩
    rw [← utf8ByteSize_ofList]
    rfl

/-- The characters from one byte offset to another. There is no slice when one of the offsets ends
inside a character or behind the text, or when they are the wrong way around. -/
def slice? (start stop : Nat) (text : Text) : Option Text :=
  ((dropBytes? stop text).map fun rest => text.take (text.length - rest.length)).bind
    (dropBytes? start)

theorem slice?_eq_some_iff {start stop : Nat} {text part : Text} :
    slice? start stop text = some part ↔
      ∃ before after, text = before ++ (part ++ after) ∧ size before = start ∧
        size (before ++ part) = stop := by
  constructor
  · intro found
    obtain ⟨front, taken, dropped⟩ := Option.bind_eq_some_iff.1 found
    obtain ⟨after, behind, same⟩ := Option.map_eq_some_iff.1 taken
    obtain ⟨whole, rfl, counted⟩ := dropBytes?_eq_some_iff.1 behind
    rw [List.length_append, Nat.add_sub_cancel, List.take_left] at same
    subst same
    obtain ⟨before, rfl, started⟩ := dropBytes?_eq_some_iff.1 dropped
    exact ⟨before, after, by rw [List.append_assoc], started, counted⟩
  · rintro ⟨before, after, rfl, rfl, rfl⟩
    rw [← List.append_assoc, slice?, dropBytes?_append, Option.map_some, List.length_append,
      Nat.add_sub_cancel, List.take_left, Option.bind_some, dropBytes?_append]

/-- A slice lies within its text, and both ends of it are valid. -/
theorem isSome_slice?_iff {start stop : Nat} {text : Text} :
    (slice? start stop text).isSome = true ↔
      start ≤ stop ∧ String.Pos.Raw.IsValid (String.ofList text) ⟨start⟩ ∧
        String.Pos.Raw.IsValid (String.ofList text) ⟨stop⟩ := by
  rw [isValid_iff, isValid_iff, Option.isSome_iff_exists]
  constructor
  · rintro ⟨part, found⟩
    obtain ⟨before, after, rfl, rfl, rfl⟩ := slice?_eq_some_iff.1 found
    refine ⟨?_, ⟨before, part ++ after, rfl, rfl⟩, ⟨before ++ part, after, by simp, rfl⟩⟩
    rw [size_append]
    exact Nat.le_add_right ..
  · rintro ⟨ordered, ⟨before, rest, rfl, rfl⟩, ⟨front, after, same, rfl⟩⟩
    rcases List.append_eq_append_iff.1 same with ⟨part, rfl, rfl⟩ | ⟨part, rfl, rfl⟩
    · exact ⟨part, slice?_eq_some_iff.2 ⟨before, after, rfl, rfl, rfl⟩⟩
    · rw [size_append] at ordered
      obtain rfl : part = [] := eq_nil_of_size (by omega)
      exact ⟨[], slice?_eq_some_iff.2 ⟨front, rest, by simp, by simp, by simp⟩⟩

section Slices

variable {start stop : Nat} {text part : Text}

theorem slice?_append (before part after : Text) :
    slice? (size before) (size (before ++ part)) (before ++ (part ++ after)) = some part :=
  slice?_eq_some_iff.2 ⟨before, after, rfl, rfl, rfl⟩

theorem slice?_front (first rest : Text) : slice? 0 (size first) (first ++ rest) = some first :=
  slice?_append [] first rest

theorem slice?_back (first rest : Text) :
    slice? (size first) (size (first ++ rest)) (first ++ rest) = some rest := by
  simpa using slice?_append first rest []

theorem length_lt_of_slice? (found : slice? (start + 1) stop text = some part) :
    part.length < text.length := by
  obtain ⟨before, after, rfl, started, _⟩ := slice?_eq_some_iff.1 found
  cases before with
  | nil => contradiction
  | cons letter before =>
      simp only [List.cons_append, List.length_cons, List.length_append]
      omega

end Slices

/-- The byte offset of the first occurrence of a pattern. -/
def offset? (pattern : Text) : Text → Option Nat
  | [] => if pattern.isEmpty then some 0 else none
  | letter :: rest =>
      if pattern.isPrefixOf (letter :: rest) then some 0
      else (offset? pattern rest).map (letter.utf8Size + ·)

/-- The offset of a pattern is the size of what stands in front of it. -/
theorem offset?_eq (pattern text : Text) :
    offset? pattern text = (breakOn? pattern text).map fun halves => size halves.1 := by
  induction text with
  | nil =>
      rw [offset?, breakOn?]
      split <;> rfl
  | cons letter text inductionHypothesis =>
      rw [offset?, breakOn?]
      cases found : after? pattern (letter :: text) with
      | none =>
          have absent : pattern.isPrefixOf (letter :: text) = false := by
            rw [Bool.eq_false_iff]
            intro starts
            obtain ⟨rest, same⟩ := List.isPrefixOf_iff_prefix.1 starts
            rw [← same, after?_append] at found
            contradiction
          rw [absent, inductionHypothesis, if_neg (by decide), Option.map_map, Option.map_map]
          simp only [Function.comp_def, size_cons]
      | some rest =>
          have starts : pattern.isPrefixOf (letter :: text) = true :=
            List.isPrefixOf_iff_prefix.2 ⟨rest, (eq_append_of_after? found).symm⟩
          rw [if_pos starts]
          rfl

/-- What stands in front of the first occurrence of a pattern and behind it can be sliced. -/
theorem slices_of_breakOn? {pattern text before after : Text}
    (found : breakOn? pattern text = some (before, after)) :
    offset? pattern text = some (size before) ∧ slice? 0 (size before) text = some before ∧
      slice? (size before + size pattern) (size text) text = some after := by
  refine ⟨by rw [offset?_eq, found, Option.map_some], ?_, ?_⟩
  · rw [eq_append_of_breakOn? found, List.append_assoc]
    exact slice?_front before (pattern ++ after)
  · rw [eq_append_of_breakOn? found, ← size_append]
    exact slice?_back (before ++ pattern) after

/-- Of two starts of a text the shorter one takes fewer bytes. -/
theorem size_lt_size_iff {text first second : Text} (start : first <+: text)
    (startToo : second <+: text) : size first < size second ↔ first.length < second.length := by
  rcases List.prefix_or_prefix_of_prefix start startToo with ⟨more, rfl⟩ | ⟨more, rfl⟩
  · rw [size_append, List.length_append]
    cases more with
    | nil => simp [size]
    | cons letter more =>
        have positive := letter.utf8Size_pos
        rw [size_cons, List.length_cons]
        omega
  · rw [size_append, List.length_append]
    omega

/-- The byte offset of the last character that passes a test. -/
def lastOffset? (test : Char → Bool) : Text → Option Nat
  | [] => none
  | letter :: rest =>
      match lastOffset? test rest with
      | some offset => some (letter.utf8Size + offset)
      | none => if test letter then some 0 else none

theorem lastOffset?_eq_none {test : Char → Bool} {text : Text}
    (fails : ∀ letter ∈ text, test letter = false) : lastOffset? test text = none := by
  induction text with
  | nil => rfl
  | cons letter text inductionHypothesis =>
      obtain ⟨first, others⟩ := List.forall_mem_cons.1 fails
      rw [lastOffset?, inductionHypothesis others]
      simp [first]

theorem lastOffset?_append {test : Char → Bool} {letter : Char} {after : Text}
    (passes : test letter = true) (fails : ∀ other ∈ after, test other = false) (before : Text) :
    lastOffset? test (before ++ letter :: after) = some (size before) := by
  induction before with
  | nil =>
      rw [List.nil_append, lastOffset?, lastOffset?_eq_none fails]
      simp [passes, size]
  | cons head before inductionHypothesis =>
      rw [List.cons_append, lastOffset?, inductionHypothesis, size_cons]

end DataSegment.Text.Unicode
