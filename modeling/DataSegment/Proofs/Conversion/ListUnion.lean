import DataSegment.Proofs.Conversion.ListedNames
import DataSegment.Proofs.Conversion.Prototypes
import DataSegment.Proofs.Conversion.Suppression
import DataSegment.Proofs.Text.LastLine
import Mathlib.Data.Finset.Card

namespace DataSegment

open Listing
open Text (IsWhole lines)

namespace Text

variable {holds : Text → Prop}

/-- A line ending at the end of a text makes no difference to lines of a kind that neither empty
lines nor carriage returns can change. -/
theorem Ends.exists_iff {open' closed : List Text} (ends : Ends open' closed)
    (empty : ¬holds []) (carriage : ∀ line, holds (line ++ ['\r']) ↔ holds line) :
    (∃ line ∈ closed, holds line) ↔ ∃ line ∈ open', holds line := by
  cases ends with
  | blank front =>
      simp only [List.mem_append, List.mem_singleton, or_and_right, exists_or, exists_eq_left]
      exact or_iff_left empty
  | same => rfl
  | carriage front line =>
      simp only [List.mem_append, List.mem_singleton, or_and_right, exists_or, exists_eq_left,
        carriage]

end Text

namespace Suppression

/-- A line gives a name: behind blanks stands a word that starts no comment and goes on to a blank,
a comma or the end of the line, and the name is what is kept of the word. -/
structure Gives (line name : Text) : Prop where
  parts : ∃ run word rest, line = run ++ (word ++ rest) ∧
    (∀ letter ∈ run, isBlank letter = true) ∧ (∀ letter ∈ word, endsWord letter = false) ∧
    (∀ letter, rest.head? = some letter → endsWord letter = true) ∧
    word.head? ≠ some ';' ∧ name = word.take Word.limit
  filled : name ≠ []

/-- Some line of some file gives a name. -/
def Lists (files : List (List UInt8)) (name : Text) : Prop :=
  ∃ file ∈ files, ∃ line ∈ lines (Text.Latin.decode file), Gives line name

/-- The byte of a line feed. -/
def newline : UInt8 := 10

/-- Files with the same lines, in any order and any number of times. -/
inductive Rearranged : List (List UInt8) → List (List UInt8) → Prop where
  | permuted {files others : List (List UInt8)} (perm : files.Perm others) : Rearranged files others
  | repeated (file : List UInt8) (files : List (List UInt8)) :
      Rearranged (file :: files) (file :: file :: files)
  | joined (first second : List UInt8) (files : List (List UInt8)) :
      Rearranged (first :: second :: files) ((first ++ newline :: second) :: files)
  | split {first : List UInt8} (ends : first.getLast? = some newline) (second : List UInt8)
      (files : List (List UInt8)) :
      Rearranged ((first ++ second) :: files) (first :: second :: files)
  | symm {files others : List (List UInt8)} (back : Rearranged files others) :
      Rearranged others files
  | trans {files others last : List (List UInt8)} (left : Rearranged files others)
      (right : Rearranged others last) : Rearranged files last

/-- Each path leads to its file. -/
abbrev Leads (read : Text → Option (List UInt8)) : List Text → List (List UInt8) → Prop :=
  List.Forall₂ fun path file => read path = some file

variable {line name source : Text} {files others : List (List UInt8)}

theorem spanWord_of_solid {word : Text} (solid : ∀ letter ∈ word, endsWord letter = false) :
    spanWord false false word = (word, []) := by
  induction word with
  | nil => rfl
  | cons letter word inductionHypothesis =>
      obtain ⟨goes, others⟩ := List.forall_mem_cons.1 solid
      rw [spanWord_plain_cons, if_neg (by simp [goes]), inductionHypothesis others]

theorem lineName?_eq_some_iff : lineName? line = some name ↔ Gives line name := by
  constructor
  · intro found
    have filled := (isName_of_lineName? found).filled
    unfold lineName? at found
    dsimp only at found
    split at found
    · contradiction
    · rename_i more
      rw [Bool.or_eq_true, not_or, Bool.not_eq_true] at more
      obtain rfl := Option.some.inj found
      have parts := spanWord_append false false (dropBlanks line)
      refine ⟨⟨line.takeWhile isBlank, _, (spanWord false false (dropBlanks line)).2, ?_,
        fun _ => isBlank_of_mem_takeBlanks, fun _ => solid_of_mem_spanWord,
        fun _ => endsWord_behind, ?_, rfl⟩, filled⟩
      · rw [parts, takeBlanks_append]
      · intro code
        obtain ⟨rest, same⟩ := List.head?_eq_some_iff.1 code
        rw [same] at parts
        rw [hasNoWord, ← parts] at more
        exact absurd more.1 (by simp)
  · rintro ⟨⟨run, word, rest, rfl, blank, solid, ends, code, rfl⟩, filled⟩
    obtain ⟨first, others, rfl⟩ : ∃ first others, word = first :: others := by
      apply List.exists_cons_of_ne_nil
      rintro rfl
      exact filled List.take_nil
    have starts := solid first (List.mem_cons_self ..)
    have start : dropBlanks (run ++ ((first :: others) ++ rest)) = (first :: others) ++ rest := by
      apply dropBlanks_append blank
      intro letter head
      obtain rfl := Option.some.inj head
      exact (Bool.or_eq_false_iff.1 starts).1
    have more : hasNoWord (run ++ ((first :: others) ++ rest)) = false := by
      rw [hasNoWord, start]
      simpa using code
    have word : spanWord false false ((first :: others) ++ rest) = (first :: others, rest) := by
      rw [spanWord_plain_append _ ends, spanWord_of_solid solid]
      rfl
    have kept : (firstWord false (run ++ ((first :: others) ++ rest))).1.text =
        (first :: others).take Word.limit := by
      rw [firstWord, start, word]
      rfl
    unfold lineName?
    dsimp only
    rw [kept, more, if_neg (by simpa using filled)]

theorem mem_namesOf : name ∈ namesOf source ↔ ∃ line ∈ lines source, Gives line name := by
  simp only [namesOf, List.mem_filterMap, lineName?_eq_some_iff]

theorem not_gives_nil : ¬Gives [] name := by
  rintro ⟨⟨run, word, rest, same, _, _, _, _, rfl⟩, filled⟩
  have empty : word = [] := by
    obtain ⟨_, later⟩ := List.append_eq_nil_iff.1 same.symm
    exact (List.append_eq_nil_iff.1 later).1
  rw [empty] at filled
  exact filled List.take_nil

/-- A carriage return is a blank, so it stands behind the word of its line. -/
theorem gives_append_carriage : Gives (line ++ ['\r']) name ↔ Gives line name := by
  constructor
  · rintro ⟨⟨run, word, rest, same, blank, solid, ends, code, rfl⟩, filled⟩
    have named : word ≠ [] := by
      rintro rfl
      exact filled List.take_nil
    obtain rfl | ⟨front, last, rfl⟩ := List.eq_nil_or_concat rest
    · obtain ⟨start, letter, rfl⟩ := (List.eq_nil_or_concat word).resolve_left named
      have parts : line ++ ['\r'] = (run ++ start) ++ [letter] := by
        rw [same]
        simp
      obtain rfl : '\r' = letter := List.singleton_inj.1 (List.append_inj' parts rfl).2
      exact absurd (solid '\r' (by simp)) (by decide)
    · have parts : line ++ ['\r'] = (run ++ (word ++ front)) ++ [last] := by
        rw [same]
        simp
      refine ⟨⟨run, word, front, (List.append_inj' parts rfl).1, blank, solid, ?_, code, rfl⟩,
        filled⟩
      intro letter first
      apply ends
      rw [List.concat_eq_append, List.head?_append, first, Option.some_or]
  · rintro ⟨⟨run, word, rest, rfl, blank, solid, ends, code, rfl⟩, filled⟩
    refine ⟨⟨run, word, rest ++ ['\r'], by simp, blank, solid, ?_, code, rfl⟩, filled⟩
    intro letter first
    cases rest with
    | nil =>
        obtain rfl := Option.some.inj first
        decide
    | cons other rest => exact ends letter first

/-- The names of a text are those in front of a line feed and those behind it. -/
theorem exists_gives_append_newline (first second : Text) :
    (∃ line ∈ lines (first ++ '\n' :: second), Gives line name) ↔
      (∃ line ∈ lines first, Gives line name) ∨ ∃ line ∈ lines second, Gives line name := by
  have closed := @Text.Ends.exists_iff (Gives · name) _ _ (Text.ends_lines first) not_gives_nil
    fun line => gives_append_carriage
  rw [Text.lines_append_newline, ← closed]
  simp only [List.mem_append, or_and_right, exists_or]

theorem lists_cons (file : List UInt8) (files : List (List UInt8)) :
    Lists (file :: files) name ↔
      (∃ line ∈ lines (Text.Latin.decode file), Gives line name) ∨ Lists files name := by
  simp only [Lists, List.mem_cons, or_and_right, exists_or, exists_eq_left]

theorem isWhole_decode {file : List UInt8} (ends : file.getLast? = some newline) :
    IsWhole (Text.Latin.decode file) := by
  intro letter last
  rw [Text.Latin.decode, List.getLast?_map, ends] at last
  exact (Option.some.inj last).symm

/-- What files list does not depend on how their lines are arranged. -/
theorem Rearranged.lists_iff (rearranged : Rearranged files others) (name : Text) :
    Lists files name ↔ Lists others name := by
  induction rearranged with
  | permuted perm => simp only [Lists, perm.mem_iff]
  | repeated file files => rw [lists_cons, lists_cons, lists_cons, ← or_assoc, or_self]
  | joined first second files =>
      have parts : Text.Latin.decode (first ++ newline :: second) =
          Text.Latin.decode first ++ '\n' :: Text.Latin.decode second := List.map_append
      rw [lists_cons, lists_cons, lists_cons, parts, exists_gives_append_newline, or_assoc]
  | @split first ends second files =>
      have parts : Text.Latin.decode (first ++ second) =
          Text.Latin.decode first ++ Text.Latin.decode second := List.map_append
      rw [lists_cons, lists_cons, lists_cons, parts, (isWhole_decode ends).lines_append, ← or_assoc]
      simp only [List.mem_append, or_and_right, exists_or]
  | symm _ inductionHypothesis => exact inductionHypothesis.symm
  | trans _ _ leftHypothesis rightHypothesis => exact leftHypothesis.trans rightHypothesis

variable {read : Text → Option (List UInt8)} {paths : List Text}

/-- Files that can be read add their names to those of the files before them. -/
theorem exists_foldlM_load (readable : Leads read paths files) (start : Suppression) :
    ∃ names, paths.foldlM (fun (names : Suppression) path =>
        match read path with
        | none => Except.error path
        | some bytes => .ok (names.insertMany (namesOf (Text.Latin.decode bytes)))) start =
          .ok names ∧
      ∀ name, name ∈ names ↔ name ∈ start ∨ Lists files name := by
  induction readable generalizing start with
  | nil => exact ⟨start, rfl, fun name => by simp [Lists]⟩
  | @cons path file paths files first _ inductionHypothesis =>
      obtain ⟨names, loaded, member⟩ :=
        inductionHypothesis (start.insertMany (namesOf (Text.Latin.decode file)))
      refine ⟨names, ?_, fun name => ?_⟩
      · rw [List.foldlM_cons, first]
        exact loaded
      · rw [member, lists_cons, ← mem_namesOf, ← or_assoc, Std.TreeSet.mem_insertMany_list,
          List.contains_iff_mem]

theorem exists_load (readable : Leads read paths files) :
    ∃ names, load read paths = .ok names ∧ ∀ name, name ∈ names ↔ Lists files name := by
  obtain ⟨names, loaded, member⟩ := exists_foldlM_load readable ∅
  exact ⟨names, loaded, fun name => by simpa using member name⟩

/-- The size of a list is the number of its names. -/
theorem exists_finset (names : Suppression) :
    ∃ listed : Finset Text, (∀ name, name ∈ listed ↔ name ∈ names) ∧
      names.size = listed.card := by
  have distinct : names.toList.Nodup := by
    refine names.distinct_toList.imp fun apart same => apart ?_
    rw [same]
    exact Std.ReflCmp.compare_self
  refine ⟨names.toList.toFinset, fun name => ?_, ?_⟩
  · rw [List.mem_toFinset, Std.TreeSet.mem_toList]
  · rw [List.toFinset_card_of_nodup distinct, Std.TreeSet.length_toList]

/-- Two lists with the same names have the same size. -/
theorem size_eq_of_mem_iff {names other : Suppression}
    (same : ∀ name, name ∈ names ↔ name ∈ other) : names.size = other.size := by
  obtain ⟨first, members, size⟩ := exists_finset names
  obtain ⟨second, membersToo, sizeToo⟩ := exists_finset other
  rw [size, sizeToo]
  congr 1
  ext name
  rw [members, membersToo, same]

end Suppression

/-- Nothing but the names of a list counts. -/
theorem Environment.agree_withSuppressed {environment : Environment} {names other : Suppression}
    (same : ∀ name, name ∈ names ↔ name ∈ other) :
    (environment.withSuppressed names).Agree (environment.withSuppressed other) where
  settings := rfl
  reference name := by
    have suppresses : (environment.withSuppressed other).suppresses name =
        (environment.withSuppressed names).suppresses name := by
      have contains : other.contains name = names.contains name := by
        rw [Bool.eq_iff_iff, Std.TreeSet.contains_iff_mem, Std.TreeSet.contains_iff_mem, same]
      exact congrArg (_ || ·) contains
    unfold reference
    rw [suppresses]
    rfl

/-- Files that can be read list a name exactly when one of their lines gives it, and they list each
name once. Files with the same lines in another order, or taken together or apart, give the same
list, and with it every listing converts alike. -/
theorem Suppression.load_union {read : Text → Option (List UInt8)} {paths : List Text}
    {files : List (List UInt8)} (readable : Leads read paths files) :
    ∃ names, load read paths = .ok names ∧
      (∀ name, names.contains name = true ↔ Lists files name) ∧
      (∃ listed : Finset Text, (∀ name, name ∈ listed ↔ Lists files name) ∧
        names.size = listed.card) ∧
      ∀ other otherPaths otherFiles, Leads other otherPaths otherFiles →
        Rearranged files otherFiles →
        ∃ same, load other otherPaths = .ok same ∧
          (∀ name, same.contains name = names.contains name) ∧ same.size = names.size ∧
          ∀ (environment : Environment) (session : Session) (source : Text),
            session.convert (environment.withSuppressed same) source =
              session.convert (environment.withSuppressed names) source := by
  obtain ⟨names, loaded, members⟩ := exists_load readable
  obtain ⟨listed, known, size⟩ := exists_finset names
  refine ⟨names, loaded, fun name => ?_, ⟨listed, fun name => ?_, size⟩, ?_⟩
  · rw [Std.TreeSet.contains_iff_mem, members]
  · rw [known, members]
  · intro other otherPaths otherFiles readableToo rearranged
    obtain ⟨same, loadedToo, membersToo⟩ := exists_load readableToo
    have equal (name : Text) : name ∈ names ↔ name ∈ same := by
      rw [members, membersToo, rearranged.lists_iff]
    refine ⟨same, loadedToo, fun name => ?_, (size_eq_of_mem_iff equal).symm, ?_⟩
    · rw [Bool.eq_iff_iff, Std.TreeSet.contains_iff_mem, Std.TreeSet.contains_iff_mem, equal]
    · intro environment session source
      exact Session.convert_of_agree (Environment.agree_withSuppressed equal) session source

/-- The last line of the first file has a carriage return and no line feed. In front of a comma
stands no name. -/
theorem Suppression.load_union_joined :
    let first := Text.Latin.encode "; a\r\n\tf g\r".toList
    let second := Text.Latin.encode ",h\nf".toList
    let read (path : Text) := if path = ['a'] then some first else some second
    let joined (_ : Text) := some (first ++ newline :: second)
    Leads read [['a'], ['b']] [first, second] ∧
      Rearranged [first, second] [first ++ newline :: second] ∧
      ∃ names same, load read [['a'], ['b']] = .ok names ∧ load joined [['c']] = .ok same ∧
        names.contains ['f'] = true ∧ same.contains ['f'] = true ∧ same.size = names.size := by
  intro first second read joined
  have readable : Leads read [['a'], ['b']] [first, second] := .cons rfl (.cons rfl .nil)
  have rearranged : Rearranged [first, second] [first ++ newline :: second] :=
    .joined first second []
  have gives : Gives "\tf g\r".toList ['f'] :=
    ⟨⟨['\t'], ['f'], " g\r".toList, rfl, by decide, by decide, by simp [endsWord, isBlank],
      by decide, rfl⟩, by decide⟩
  have cut : Text.lines (Text.Latin.decode first) = ["; a".toList, "\tf g\r".toList] := by
    decide +kernel
  have listed : Lists [first, second] ['f'] :=
    ⟨first, List.mem_cons_self .., _, by simp [cut], gives⟩
  obtain ⟨names, loaded, contains, _, alike⟩ := load_union readable
  obtain ⟨same, loadedToo, containsToo, size, _⟩ :=
    alike joined [['c']] _ (.cons rfl .nil) rearranged
  have named : names.contains ['f'] = true := (contains ['f']).2 listed
  exact ⟨readable, rearranged, names, same, loaded, loadedToo, named,
    (containsToo ['f']).trans named, size⟩

end DataSegment
