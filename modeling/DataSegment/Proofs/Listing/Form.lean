import DataSegment.Listing.Operand
import Mathlib.Data.List.Infix

namespace DataSegment.Listing

/-- Operands are a list when they have no other form. Only the first one can give them another,
except that two operands can end in a repeated value. -/
structure IsList (width : Width) (first : Text) (others : List Text) : Prop where
  unquoted : width = .byte → startsQuoted first = false
  single : ∀ second, others = [second] → isRepeat second = false
  unpacked : width = .double → isPacked first = false
  whole : width.floatFormat?.isSome → '.' ∉ first

/-- The rules for the forms of operands of which none is empty. -/
inductive Form.Reads (width : Width) : List Text → Form → Prop where
  | string {first : Text} {others : List Text} (bytes : width = .byte)
      (quoted : startsQuoted first = true) :
      Reads width (first :: others) (.string (first :: others))
  | repeated {count word : Text} (unquoted : width = .byte → startsQuoted count = false)
      (repeats : isRepeat word = true) : Reads width [count, word] (.repeated count word)
  | packed {word : Text} (double : width = .double) (packs : isPacked word = true) :
      Reads width [word] (.packed word)
  | float {word : Text} {format : FloatFormat} (unpacked : width = .double → isPacked word = false)
      (wide : width.floatFormat? = some format) (pointed : '.' ∈ word) :
      Reads width [word] (.float format word)
  | list {first : Text} {others : List Text} (isList : IsList width first others) :
      Reads width (first :: others) (.list (Operand.ofWords width (first :: others)))

namespace Form

variable {width : Width} {first : Text} {others : List Text} {form : Form}

theorem ofFirst_eq_ok_iff (unquoted : width = .byte → startsQuoted first = false)
    (single : ∀ second, others = [second] → isRepeat second = false) :
    ofFirst width first others = .ok form ↔ Reads width (first :: others) form := by
  constructor
  · intro found
    unfold ofFirst at found
    split at found
    · rename_i packs
      split at found
      · rename_i alone
        obtain rfl := Except.ok.inj found
        subst alone
        exact .packed packs.1 packs.2
      · simp at found
    · rename_i neither
      have unpacked : width = .double → isPacked first = false := by simpa using neither
      split at found
      · rename_i format wide pointed
        split at found
        · rename_i alone
          obtain rfl := Except.ok.inj found
          subst alone
          exact .float unpacked wide (by simpa using pointed)
        · simp at found
      · rename_i other
        obtain rfl := Except.ok.inj found
        refine .list ⟨unquoted, single, unpacked, fun wide pointed => ?_⟩
        obtain ⟨format, wide⟩ := Option.isSome_iff_exists.1 wide
        exact other format wide (by simpa using pointed)
  · intro rule
    unfold ofFirst
    cases rule with
    | string bytes quoted => simp [unquoted bytes] at quoted
    | repeated _ repeats => simp [single _ rfl] at repeats
    | packed double packs => rw [if_pos ⟨double, packs⟩, if_pos rfl]
    | float unpacked wide pointed =>
        have point : first.contains '.' = true := by simpa using pointed
        rw [if_neg (by simpa using unpacked), wide, point]
        exact if_pos rfl
    | list isList =>
        rw [if_neg (by simpa using isList.unpacked)]
        split
        · rename_i format wide pointed
          exact absurd (by simpa using pointed) (isList.whole (by simp [wide]))
        · rfl

/-- Operands have a form when none is empty and a rule gives it. -/
theorem ofOperands_eq_ok_iff {operands : List Text} :
    ofOperands width operands = .ok form ↔ [] ∉ operands ∧ Reads width operands form := by
  cases operands with
  | nil =>
      constructor
      · intro found
        simp [ofOperands] at found
      · rintro ⟨_, rule⟩
        cases rule
  | cons first others =>
      have empty : (first :: others).any List.isEmpty = true ↔ [] ∈ first :: others := by
        simp only [List.any_eq_true, List.isEmpty_iff, exists_eq_right]
      unfold ofOperands
      dsimp only
      split
      · rename_i holds
        simp only [reduceCtorEq, false_iff, not_and]
        exact fun filled => absurd (empty.1 holds) filled
      · rename_i absent
        have filled : [] ∉ first :: others := fun holds => absent (empty.2 holds)
        simp only [filled, not_false_eq_true, true_and]
        split
        · rename_i quoted
          constructor
          · rintro ⟨⟩
            exact .string quoted.1 quoted.2
          · rintro (_ | ⟨unquoted, _⟩ | ⟨double, _⟩ | ⟨_, wide, _⟩ | isList)
            · rfl
            · simp [unquoted quoted.1] at quoted
            · simp [quoted.1] at double
            · simp [quoted.1, Width.floatFormat?] at wide
            · simp [isList.unquoted quoted.1] at quoted
        · rename_i other
          have unquoted : width = .byte → startsQuoted first = false := by simpa using other
          split
          · rename_i second
            split
            · rename_i repeats
              constructor
              · rintro ⟨⟩
                exact .repeated unquoted repeats
              · rintro (⟨bytes, quoted⟩ | _ | _ | _ | isList)
                · simp [unquoted bytes] at quoted
                · rfl
                · simp [isList.single second rfl] at repeats
            · rename_i plain
              exact ofFirst_eq_ok_iff unquoted fun _ same => by simp_all
          · rename_i several
            exact ofFirst_eq_ok_iff unquoted fun second same => absurd same (several second)

end Form

namespace Operand

variable {width : Width} {words : List Text} {word : Text}

/-- A word of a list is a name behind `offset`, or an operand of its own. -/
theorem mem_ofWords (listed : word ∈ words) (other : word ≠ "offset".toList) :
    (label word ∈ ofWords width words ∧ ["offset".toList, word] <:+: words) ∨
      ofWord width word ∈ ofWords width words := by
  induction words using ofWords.induct with
  | case1 => simp at listed
  | case2 only =>
      obtain rfl := List.mem_singleton.1 listed
      exact .inr (List.mem_singleton_self _)
  | case3 next rest inductionHypothesis =>
      rw [ofWords, if_pos rfl]
      rcases List.mem_cons.1 listed with rfl | listed
      · exact absurd rfl other
      · rcases List.mem_cons.1 listed with rfl | listed
        · exact .inl ⟨List.mem_cons_self .., ⟨[], rest, rfl⟩⟩
        · rcases inductionHypothesis listed with ⟨named, behind⟩ | own
          · refine .inl ⟨List.mem_cons_of_mem _ named, behind.trans ?_⟩
            exact ((List.suffix_cons _ rest).trans (List.suffix_cons _ _)).isInfix
          · exact .inr (List.mem_cons_of_mem _ own)
  | case4 first next rest plain inductionHypothesis =>
      rw [ofWords, if_neg plain]
      rcases List.mem_cons.1 listed with rfl | listed
      · exact .inr (List.mem_cons_self ..)
      · rcases inductionHypothesis listed with ⟨named, behind⟩ | own
        · refine .inl ⟨List.mem_cons_of_mem _ named, behind.trans ?_⟩
          exact (List.suffix_cons _ _).isInfix
        · exact .inr (List.mem_cons_of_mem _ own)

end Operand

end DataSegment.Listing
