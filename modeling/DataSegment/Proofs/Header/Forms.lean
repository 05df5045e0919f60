import DataSegment.Proofs.Header.Balance
import DataSegment.Proofs.Header.Fragment
import DataSegment.Proofs.Results
import Mathlib.Data.List.Infix
import Mathlib.Data.List.TakeWhile

namespace DataSegment.Header

open Text

/-- A type in front of a name. The type ends in a blank or a star and can be any text. -/
structure IsTyped (text type name : Text) : Prop where
  parts : ∃ front letter, text = front ++ letter :: name ∧ endsType letter = true ∧
    type = trim (front ++ [letter])
  typed : type ≠ []
  identifier : isIdentifier name = true

/-- What is read of the head of a routine: all of it, or what stands in front of the first register
mark. -/
inductive UpToMark : Text → Text → Prop where
  | whole {head : Text} (unmarked : ¬['@', '<'] <:+: head) : UpToMark head head
  | cut {named : Text} (first : ¬['@', '<'] <:+: named ++ ['@']) (after : Text) :
      UpToMark (named ++ '@' :: '<' :: after) named

/-- The words inside the parentheses of a pointer. -/
def pointerWords (inner : Text) : List Text :=
  words (inner.map fun letter => if letter = '*' then ' ' else letter)

/-- The words in front of the parameter list of a routine. -/
def routineWords (named : Text) : List Text := words (spaceStars named)

/-- What a statement declares. Nothing is asked of the dimensions of data from the first bracket on,
of the text behind a parameter list and of the letters of a type. -/
inductive Declares (text : Text) : Prototype → Prop where
  | data {declarator dimensions type name : Text} (flat : '(' ∉ text)
      (parts : text = declarator ++ dimensions) (plain : '[' ∉ declarator)
      (bracket : ∀ letter, dimensions.head? = some letter → letter = '[')
      (typed : IsTyped (trim declarator) type name) :
      Declares text ⟨name, type, .data, .cdecl, [], false⟩
  | routine {head named list rest type name : Text} {read : List Parameter × Bool}
      (parts : text = head ++ '(' :: (list ++ ')' :: rest)) (first : '(' ∉ head)
      (balanced : isBalanced 0 list = true) (ends : (trim rest).head? ≠ some '(')
      (marked : UpToMark (trim head) named)
      (typed : IsTyped (unwords (withoutKeywords (routineWords named))) type name)
      (listed : parameters (convention (routineWords named)) list = .ok read) :
      Declares text ⟨name, type, .routine, convention (routineWords named), read.1, read.2⟩
  | pointer {head inner rest list behind name : Text} {read : List Parameter × Bool}
      (parts : text = head ++ '(' :: (inner ++ ')' :: rest)) (first : '(' ∉ head)
      (balanced : isBalanced 0 inner = true) (tail : trim rest = '(' :: (list ++ ')' :: behind))
      (nested : isBalanced 0 list = true) (star : '*' ∈ inner) (typed : trim head ≠ [])
      (last : (withoutKeywords (pointerWords inner)).getLast? = some name)
      (identifier : isIdentifier name = true)
      (listed : parameters (convention (pointerWords inner)) list = .ok read) :
      Declares text
        ⟨name, trim head, .pointer, convention (pointerWords inner), read.1, read.2⟩

theorem not_endsType_of_isIdentifier {name : Text} (identifier : isIdentifier name = true) :
    ∀ letter ∈ name, endsType letter = false := by
  intro letter member
  have known := letter_of_isIdentifier identifier letter member
  have star : letter ≠ '*' := by
    rintro rfl
    exact absurd known (by decide)
  rw [endsType, solid_of_isIdentifierLetter known, Bool.false_or, beq_eq_false_iff_ne]
  exact star

/-- A text has a last letter that ends a type, or none at all. -/
theorem exists_last_endsType (text : Text) :
    (∀ letter ∈ text, endsType letter = false) ∨ ∃ front letter name,
      text = front ++ letter :: name ∧ endsType letter = true ∧
        ∀ other ∈ name, endsType other = false := by
  cases found : text.reverse.find? endsType with
  | none =>
      refine .inl fun letter member => ?_
      simpa using List.find?_eq_none.1 found letter (List.mem_reverse.2 member)
  | some letter =>
      obtain ⟨ends, name, front, reversed, before⟩ := List.find?_eq_some_iff_append.1 found
      refine .inr ⟨front.reverse, letter, name.reverse, ?_, ends, ?_⟩
      · rw [← text.reverse_reverse, reversed]
        simp
      · intro other member
        simpa using before other (List.mem_reverse.1 member)

/-- Without a letter that ends a type there is none. -/
theorem typeAndName?_of_solid {text : Text} (solid : ∀ letter ∈ text, endsType letter = false) :
    typeAndName? text = none := by
  have goes : ∀ letter ∈ text.reverse, (!endsType letter) = true := by
    intro letter member
    rw [solid letter (List.mem_reverse.1 member), Bool.not_false]
  unfold typeAndName?
  dsimp only
  rw [List.dropWhile_eq_nil_iff.2 goes]
  rfl

/-- The last letter that ends a type belongs to it, and the name stands behind. -/
theorem typeAndName?_append {front name : Text} {letter : Char} (ends : endsType letter = true)
    (solid : ∀ other ∈ name, endsType other = false) :
    typeAndName? (front ++ letter :: name) =
      if !(trim (front ++ [letter])).isEmpty && isIdentifier name then
        some (trim (front ++ [letter]), name)
      else none := by
  have goes : ∀ other ∈ name.reverse, (!endsType other) = true := by
    intro other member
    rw [solid other (List.mem_reverse.1 member), Bool.not_false]
  have reversed : (front ++ letter :: name).reverse = name.reverse ++ letter :: front.reverse := by
    simp
  have type : (name.reverse ++ letter :: front.reverse).dropWhile (fun other => !endsType other) =
      (front ++ [letter]).reverse := by
    rw [List.dropWhile_append_of_pos goes, List.dropWhile_cons_of_neg (by simp [ends])]
    simp
  have behind : (name.reverse ++ letter :: front.reverse).takeWhile
      (fun other => !endsType other) = name.reverse := by
    rw [List.takeWhile_append_of_pos goes, List.takeWhile_cons_of_neg (by simp [ends]),
      List.append_nil]
  unfold typeAndName?
  dsimp only
  rw [reversed, type, behind, List.reverse_reverse, List.reverse_reverse]

theorem typeAndName?_eq_some_iff {text type name : Text} :
    typeAndName? text = some (type, name) ↔ IsTyped text type name := by
  constructor
  · intro found
    rcases exists_last_endsType text with solid | ⟨front, letter, behind, rfl, ends, solid⟩
    · rw [typeAndName?_of_solid solid] at found
      contradiction
    · rw [typeAndName?_append ends solid] at found
      split at found
      · rename_i both
        obtain ⟨rfl, rfl⟩ := Prod.mk.inj (Option.some.inj found)
        rw [Bool.and_eq_true, Bool.not_eq_true', List.isEmpty_eq_false_iff] at both
        exact ⟨⟨front, letter, rfl, ends, rfl⟩, both.1, both.2⟩
      · contradiction
  · rintro ⟨⟨front, letter, rfl, ends, rfl⟩, typed, identifier⟩
    rw [typeAndName?_append ends (not_endsType_of_isIdentifier identifier), if_pos]
    simp [typed, identifier]

/-- A type that is followed by a space. -/
theorem IsTyped.append_space {type name : Text} (spaced : SingleSpaced type)
    (identifier : isIdentifier name = true) : IsTyped (type ++ ' ' :: name) type name :=
  ⟨⟨type, ' ', rfl, by decide, spaced.trim_append_space.symm⟩, spaced.ne_nil, identifier⟩

theorem exists_upToMark (head : Text) : ∃ named, UpToMark head named := by
  cases found : breakOn? ['@', '<'] head with
  | none => exact ⟨head, .whole ((breakOn?_eq_none_iff (by simp)).1 found)⟩
  | some halves =>
      obtain ⟨same, first⟩ := (breakOn?_eq_some_iff (by simp)).1 found
      rw [List.append_assoc] at same
      rw [same]
      exact ⟨halves.1, .cut first halves.2⟩

/-- The text in front of the first bracket. -/
theorem takeWhile_eq_iff {text declarator : Text} :
    text.takeWhile (· != '[') = declarator ↔
      '[' ∉ declarator ∧ ∃ dimensions, text = declarator ++ dimensions ∧
        ∀ letter, dimensions.head? = some letter → letter = '[' := by
  constructor
  · rintro rfl
    refine ⟨fun member => ?_, text.dropWhile (· != '['), ?_, ?_⟩
    · exact absurd (List.mem_takeWhile_imp member) (by decide)
    · exact List.takeWhile_append_dropWhile.symm
    · intro letter first
      have stops := List.head?_dropWhile_not (· != '[') text
      rw [first] at stops
      simpa using stops
  · rintro ⟨plain, dimensions, rfl, bracket⟩
    have goes : ∀ letter ∈ declarator, (letter != '[') = true := by
      intro letter member
      rw [bne_iff_ne]
      rintro rfl
      exact plain member
    rw [List.takeWhile_append_of_pos goes]
    cases dimensions with
    | nil => simp
    | cons letter rest =>
        obtain rfl := bracket letter rfl
        rw [List.takeWhile_cons_of_neg (by decide), List.append_nil]

theorem dataPrototype_eq_ok_iff {text : Text} {prototype : Prototype} :
    dataPrototype text = .ok prototype ↔ ∃ type name,
      IsTyped (trim (text.takeWhile (· != '['))) type name ∧
        prototype = ⟨name, type, .data, .cdecl, [], false⟩ := by
  simp only [← typeAndName?_eq_some_iff]
  unfold dataPrototype
  split
  · rename_i missing
    simp [missing]
  · rename_i type name found
    constructor
    · intro made
      exact ⟨type, name, found, (Except.ok.inj made).symm⟩
    · rintro ⟨other, second, same, rfl⟩
      obtain ⟨rfl, rfl⟩ := Prod.mk.inj (Option.some.inj (found.symm.trans same))
      rfl

theorem UpToMark.unmarked {head named : Text} (marked : UpToMark head named) :
    ¬['@', '<'] <:+: named := by
  cases marked with
  | whole unmarked => exact unmarked
  | cut first after => exact fun found => first (found.trans (List.prefix_append named _).isInfix)

theorem UpToMark.routinePrototype_eq {head named : Text} (marked : UpToMark head named)
    (text list : Text) : routinePrototype text head list = routinePrototype text named list := by
  cases marked with
  | whole => rfl
  | cut first after =>
      have found : breakOn? ['@', '<'] (named ++ '@' :: '<' :: after) = some (named, after) :=
        breakOn?_append first after
      have missing : breakOn? ['@', '<'] named = none :=
        breakOn?_eq_none (UpToMark.cut first after).unmarked
      rw [routinePrototype, routinePrototype, found, missing]

theorem routinePrototype_eq_ok_iff {text head list : Text} {prototype : Prototype} :
    routinePrototype text head list = .ok prototype ↔ ∃ named type name read,
      UpToMark head named ∧
      IsTyped (unwords (withoutKeywords (routineWords named))) type name ∧
      parameters (convention (routineWords named)) list = .ok read ∧
      prototype = ⟨name, type, .routine, convention (routineWords named), read.1, read.2⟩ := by
  constructor
  · intro made
    obtain ⟨named, marked⟩ := exists_upToMark head
    rw [marked.routinePrototype_eq, routinePrototype, breakOn?_eq_none marked.unmarked] at made
    dsimp only at made
    split at made
    · contradiction
    · rename_i type name typed
      obtain ⟨read, listed, same⟩ := Results.map_eq_ok_iff.1 made
      exact ⟨named, type, name, read, marked, typeAndName?_eq_some_iff.1 typed, listed, same.symm⟩
  · rintro ⟨named, type, name, read, marked, typed, listed, rfl⟩
    rw [routineWords] at typed listed
    rw [marked.routinePrototype_eq, routinePrototype, breakOn?_eq_none marked.unmarked]
    dsimp only
    rw [typeAndName?_eq_some_iff.2 typed]
    exact Results.map_eq_ok_iff.2 ⟨read, listed, rfl⟩

theorem pointerPrototype_eq_ok_iff {text type inner tail : Text} {prototype : Prototype} :
    pointerPrototype text type inner tail = .ok prototype ↔ ∃ list behind name read,
      '*' ∈ inner ∧ type ≠ [] ∧
      tail = list ++ ')' :: behind ∧ isBalanced 0 list = true ∧
      (withoutKeywords (pointerWords inner)).getLast? = some name ∧ isIdentifier name = true ∧
      parameters (convention (pointerWords inner)) list = .ok read ∧
      prototype = ⟨name, type, .pointer, convention (pointerWords inner), read.1, read.2⟩ := by
  constructor
  · intro made
    unfold pointerPrototype at made
    split at made
    · rename_i both
      rw [Bool.and_eq_true, List.contains_iff_mem, Bool.not_eq_true', List.isEmpty_eq_false_iff]
        at both
      split at made
      · contradiction
      · rename_i list behind closed
        obtain ⟨parts, nested⟩ := closing?_eq_some_iff.1 closed
        dsimp only at made
        split at made
        · contradiction
        · rename_i name found
          obtain ⟨last, identifier⟩ := Option.filter_eq_some_iff.1 found
          obtain ⟨read, listed, same⟩ := Results.map_eq_ok_iff.1 made
          exact ⟨list, behind, name, read, both.1, both.2, parts, nested, last, identifier, listed,
            same.symm⟩
    · contradiction
  · rintro ⟨list, behind, name, read, star, typed, rfl, nested, last, identifier, listed, rfl⟩
    have both : (inner.contains '*' && !type.isEmpty) = true := by simp [star, typed]
    have found : (withoutKeywords (pointerWords inner)).getLast?.filter isIdentifier =
        some name := Option.filter_eq_some_iff.2 ⟨last, identifier⟩
    rw [pointerWords] at found listed
    rw [pointerPrototype, if_pos both, closing?_of_isBalanced nested]
    dsimp only
    rw [found]
    exact Results.map_eq_ok_iff.2 ⟨read, listed, rfl⟩

/-- Whether a statement opens a body or defines only a type. -/
def isIgnored (text : Text) : Bool := text.contains '\x7b' || definesType text

/-- Only a statement that is ignored is read without a failure and without a prototype. -/
theorem prototype?_eq_none_iff {text : Text} :
    prototype? text = .ok none ↔ isIgnored text = true := by
  constructor
  · intro made
    by_contra more
    have present {found : Except Fault Prototype} : found.map some ≠ .ok none := by
      cases found <;> simp [Except.map]
    unfold prototype? at made
    rw [isIgnored] at more
    rw [if_neg more] at made
    split at made
    · exact present made
    · split at made
      · contradiction
      · split at made
        · exact present made
        · exact present made
  · intro ignored
    rw [isIgnored] at ignored
    rw [prototype?, if_pos ignored]

/-- A statement that is not ignored declares a prototype when it has one of three forms. -/
theorem prototype?_eq_some_iff {text : Text} {prototype : Prototype} :
    prototype? text = .ok (some prototype) ↔
      isIgnored text = false ∧ Declares text prototype := by
  unfold isIgnored
  constructor
  · intro made
    unfold prototype? at made
    split at made
    · exact absurd (Except.ok.inj made) (by simp)
    · rename_i more
      refine ⟨Bool.eq_false_iff.2 more, ?_⟩
      split at made
      · rename_i flat
        rw [breakOn?_eq_none_iff (by simp), List.singleton_infix_iff] at flat
        obtain ⟨found, data, same⟩ := Results.map_eq_ok_iff.1 made
        obtain rfl := Option.some.inj same
        obtain ⟨type, name, typed, rfl⟩ := dataPrototype_eq_ok_iff.1 data
        obtain ⟨plain, dimensions, parts, bracket⟩ := takeWhile_eq_iff.1 (Eq.refl
          (text.takeWhile (· != '[')))
        exact .data flat parts plain bracket typed
      · rename_i head after found
        obtain ⟨rfl, first⟩ := breakOn?_singleton_iff.1 found
        split at made
        · contradiction
        · rename_i inner rest closed
          obtain ⟨rfl, balanced⟩ := closing?_eq_some_iff.1 closed
          split at made
          · rename_i tail starts
            obtain ⟨found, pointer, same⟩ := Results.map_eq_ok_iff.1 made
            obtain rfl := Option.some.inj same
            obtain ⟨list, behind, name, read, star, typed, rfl, nested, last, identifier, listed,
              rfl⟩ := pointerPrototype_eq_ok_iff.1 pointer
            exact .pointer rfl first balanced starts nested star typed last identifier listed
          · rename_i other
            obtain ⟨found, routine, same⟩ := Results.map_eq_ok_iff.1 made
            obtain rfl := Option.some.inj same
            obtain ⟨named, type, name, read, marked, typed, listed, rfl⟩ :=
              routinePrototype_eq_ok_iff.1 routine
            refine .routine rfl first balanced (fun starts => ?_) marked typed listed
            obtain ⟨tail, same⟩ := List.head?_eq_some_iff.1 starts
            exact other tail same
  · rintro ⟨more, declares⟩
    unfold prototype?
    rw [if_neg (by rw [more]; decide)]
    cases declares with
    | data flat parts plain bracket typed =>
        rw [(breakOn?_eq_none_iff (by simp)).2 (by rwa [List.singleton_infix_iff])]
        have front := takeWhile_eq_iff.2 ⟨plain, _, parts, bracket⟩
        rw [← front] at typed
        exact Results.map_eq_ok_iff.2
          ⟨_, dataPrototype_eq_ok_iff.2 ⟨_, _, typed, rfl⟩, rfl⟩
    | routine parts first balanced ends marked typed listed =>
        rw [breakOn?_singleton_iff.2 ⟨parts, first⟩]
        dsimp only
        rw [closing?_of_isBalanced balanced]
        dsimp only
        split
        · rename_i tail starts
          rw [starts] at ends
          exact absurd rfl ends
        · refine Results.map_eq_ok_iff.2 ⟨_, ?_, rfl⟩
          exact routinePrototype_eq_ok_iff.2 ⟨_, _, _, _, marked, typed, listed, rfl⟩
    | pointer parts first balanced tail nested star typed last identifier listed =>
        rw [breakOn?_singleton_iff.2 ⟨parts, first⟩]
        dsimp only
        rw [closing?_of_isBalanced balanced]
        dsimp only
        rw [tail]
        refine Results.map_eq_ok_iff.2 ⟨_, ?_, rfl⟩
        exact pointerPrototype_eq_ok_iff.2
          ⟨_, _, _, _, star, typed, rfl, nested, last, identifier, listed, rfl⟩

/-- Every keyword of a convention is an identifier that names the convention. -/
theorem keyword_spec {convention : Convention} {keyword : Text}
    (listed : keyword ∈ convention.keywords) :
    isIdentifier keyword = true ∧ keyword ∉ specifiers ∧
      Convention.ofKeyword? keyword = some convention := by
  have each : ∀ convention ∈ Convention.all, ∀ keyword ∈ convention.keywords,
      isIdentifier keyword = true ∧ keyword ∉ specifiers ∧
        Convention.ofKeyword? keyword = some convention := by decide
  exact each convention (by cases convention <;> decide) keyword listed

/-- The words that name a convention in front of a name: one keyword or none. -/
inductive NamesConvention : Convention → List Text → Prop where
  | silent : NamesConvention .cdecl []
  | keyword {convention : Convention} {word : Text} (listed : word ∈ convention.keywords) :
      NamesConvention convention [word]

theorem NamesConvention.convention_eq {named : Convention} {keywords before : List Text}
    {name : Text} (called : NamesConvention named keywords)
    (silent : ∀ word ∈ before, Convention.ofKeyword? word = none)
    (other : Convention.ofKeyword? name = none) :
    convention (before ++ (keywords ++ [name])) = named := by
  have none : before.filterMap Convention.ofKeyword? = [] := List.filterMap_eq_nil_iff.2 silent
  rw [convention, List.filterMap_append, none]
  cases called with
  | silent => simp [other]
  | keyword listed => simp [(keyword_spec listed).2.2, other]

theorem NamesConvention.withoutKeywords_eq {named : Convention} {keywords before : List Text}
    {name : Text} (called : NamesConvention named keywords)
    (silent : ∀ word ∈ before, Convention.ofKeyword? word = none)
    (other : Convention.ofKeyword? name = none) :
    withoutKeywords (before ++ (keywords ++ [name])) = before ++ [name] := by
  have kept : before.filter (fun word => (Convention.ofKeyword? word).isNone) = before := by
    rw [List.filter_eq_self]
    intro word member
    rw [silent word member]
    rfl
  rw [withoutKeywords, List.filter_append, kept]
  cases called with
  | silent => simp [other]
  | keyword listed => simp [(keyword_spec listed).2.2, other]

/-- A routine is declared by the words of its type and its name, with a keyword between them. -/
theorem Declares.of_routineWords {text head named list rest name : Text}
    {type keywords : List Text} {named' : Convention} {read : List Parameter × Bool}
    (parts : text = head ++ '(' :: (list ++ ')' :: rest)) (first : '(' ∉ head)
    (balanced : isBalanced 0 list = true) (ends : (trim rest).head? ≠ some '(')
    (marked : UpToMark (trim head) named)
    (words : routineWords named = type ++ (keywords ++ [name])) (typed : type ≠ [])
    (silent : ∀ word ∈ type, Convention.ofKeyword? word = none)
    (called : NamesConvention named' keywords) (identifier : isIdentifier name = true)
    (other : Convention.ofKeyword? name = none) (listed : parameters named' list = .ok read) :
    Declares text ⟨name, unwords type, .routine, named', read.1, read.2⟩ := by
  have kept := called.withoutKeywords_eq silent other
  have calling := called.convention_eq silent other
  rw [← words] at kept calling
  have solid : ∀ word ∈ type, word ≠ [] ∧ ∀ letter ∈ word, isWhite letter = false := by
    intro word member
    have known : word ∈ routineWords named := by simp [words, member]
    exact ⟨(mem_words.1 known).2, solid_of_mem_words known⟩
  have spaced : SingleSpaced (unwords type) := .unwords_of_solid typed solid
  have split : IsTyped (unwords (withoutKeywords (routineWords named))) (unwords type) name := by
    rw [kept, unwords_append_singleton typed]
    exact .append_space spaced identifier
  rw [← calling] at listed ⊢
  exact .routine parts first balanced ends marked split listed

/-- A pointer is declared by the keyword and the name in its own parentheses. -/
theorem Declares.of_pointerWords {text head inner rest list behind name : Text}
    {keywords : List Text} {named' : Convention} {read : List Parameter × Bool}
    (parts : text = head ++ '(' :: (inner ++ ')' :: rest)) (first : '(' ∉ head)
    (balanced : isBalanced 0 inner = true) (tail : trim rest = '(' :: (list ++ ')' :: behind))
    (nested : isBalanced 0 list = true) (star : '*' ∈ inner) (typed : trim head ≠ [])
    (words : pointerWords inner = keywords ++ [name]) (called : NamesConvention named' keywords)
    (identifier : isIdentifier name = true) (other : Convention.ofKeyword? name = none)
    (listed : parameters named' list = .ok read) :
    Declares text ⟨name, trim head, .pointer, named', read.1, read.2⟩ := by
  have kept := @NamesConvention.withoutKeywords_eq _ _ [] _ called (by simp) other
  have calling := @NamesConvention.convention_eq _ _ [] _ called (by simp) other
  rw [List.nil_append, ← words] at kept calling
  rw [← calling] at listed ⊢
  exact .pointer parts first balanced tail nested star typed (by rw [kept]; rfl) identifier listed

end DataSegment.Header
