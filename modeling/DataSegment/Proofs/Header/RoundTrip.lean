import DataSegment.Header.Database
import DataSegment.Proofs.Header.Forms
import DataSegment.Proofs.Header.Parameters

namespace DataSegment.Header

open Text

/-- A name that can be declared. -/
structure IsName (name : Text) : Prop where
  identifier : isIdentifier name = true
  other : Convention.ofKeyword? name = none
  unspecified : name ∉ specifiers

/-- A type is made of single-spaced identifiers and stars. It is more than a keyword that opens a
definition. -/
structure IsType (text : Text) : Prop where
  filled : text ≠ []
  spaced : unwords (words text) = text
  each : ∀ word ∈ words text, word = ['*'] ∨ IsName word
  defined : (words text).head? ≠ some "typedef".toList
  named : words text ∉ [["struct".toList], ["union".toList], ["enum".toList], ["class".toList]]

/-- Data has neither parameters nor a convention of its own. -/
structure Prototype.WellFormed (prototype : Prototype) : Prop where
  name : IsName prototype.name
  type : IsType prototype.type
  parameters : ∀ parameter ∈ prototype.parameters, IsParameter parameter.text
  data : prototype.kind = .data →
    prototype.convention = .cdecl ∧ prototype.parameters = [] ∧ prototype.variadic = false

/-- What stands in front of a parameter list. -/
def routineHead (keyword : Text) (prototype : Prototype) : Text :=
  prototype.type ++ ' ' :: (keyword ++ ' ' :: prototype.name)

/-- What stands between the parentheses of a pointer. -/
def pointerInner (keyword : Text) (prototype : Prototype) : Text :=
  keyword ++ ' ' :: '*' :: prototype.name

/-- The parameter list of a prototype with its closing parenthesis. -/
def listTail (prototype : Prototype) : Text :=
  parameterList prototype.parameters prototype.variadic ++ [')']

/-- The statement that declares a prototype, up to its semicolon. -/
def Prototype.render (keyword : Text) (prototype : Prototype) : Text :=
  match prototype.kind with
  | .routine => routineHead keyword prototype ++ '(' :: listTail prototype
  | .pointer =>
      prototype.type ++ ' ' :: '(' ::
        (pointerInner keyword prototype ++ ')' :: '(' :: listTail prototype)
  | .data => prototype.type ++ ' ' :: prototype.name

/-- Registers that are not written come from the convention, by position. -/
def Prototype.recorded (prototype : Prototype) : Prototype :=
  { prototype with
    parameters := prototype.parameters.mapIdx fun index parameter =>
      ⟨parameter.text, parameter.register.or prototype.convention.defaultRegisters[index]?⟩ }

theorem IsName.fragment {name : Text} (isName : IsName name) : Fragment name :=
  .of_isIdentifier isName.identifier isName.unspecified

namespace IsType

variable {type : Text}

theorem words_ne_nil (isType : IsType type) : words type ≠ [] := by
  intro empty
  have same := isType.spaced
  rw [empty] at same
  exact isType.filled same.symm

theorem fragment (isType : IsType type) : Fragment type := by
  rw [← isType.spaced]
  apply Fragment.unwords isType.words_ne_nil
  intro word member
  rcases isType.each word member with rfl | isName
  · exact .of_solid (by decide) (by decide) (by decide)
  · exact isName.fragment

theorem not_mem (isType : IsType type) {letter : Char}
    (foreign : isIdentifierLetter letter = false) (other : letter ≠ ' ' ∧ letter ≠ '*') :
    letter ∉ type := by
  intro member
  rw [← isType.spaced] at member
  rcases mem_unwords member with space | ⟨word, listed, member⟩
  · exact other.1 space
  · rcases isType.each word listed with rfl | isName
    · exact other.2 (List.mem_singleton.1 member)
    · exact not_mem_of_isIdentifier isName.identifier foreign member

end IsType

section

variable {prototype : Prototype} {keyword : Text}

theorem fragment_listTail (wellFormed : prototype.WellFormed) : Fragment (listTail prototype) :=
  .append_cons ⟨by decide, by decide, by decide, by decide⟩
    (fragment_parameterList _ wellFormed.parameters) (.inl rfl)

theorem fragment_keyword (listed : keyword ∈ prototype.convention.keywords) : Fragment keyword :=
  .of_isIdentifier (keyword_spec listed).1 (keyword_spec listed).2.1

theorem fragment_routineHead (wellFormed : prototype.WellFormed)
    (listed : keyword ∈ prototype.convention.keywords) : Fragment (routineHead keyword prototype) :=
  wellFormed.type.fragment.append_space
    ((fragment_keyword listed).append_space wellFormed.name.fragment)

theorem fragment_pointerInner (wellFormed : prototype.WellFormed)
    (listed : keyword ∈ prototype.convention.keywords) :
    Fragment (pointerInner keyword prototype) := by
  have foreign : ∀ word ∈ specifiers, '*' ∉ word := by decide
  refine (fragment_keyword listed).append_space
    (.of_solid (by simp) (fun specifier => foreign _ specifier (by simp)) ?_)
  exact List.forall_mem_cons.2
    ⟨by decide, unrestricted_of_isIdentifier wellFormed.name.identifier⟩

theorem glue_opening : Glue '(' := ⟨by decide, by decide, by decide, by decide⟩

theorem fragment_render (wellFormed : prototype.WellFormed)
    (listed : keyword ∈ prototype.convention.keywords) : Fragment (prototype.render keyword) := by
  have closing : Glue ')' := ⟨by decide, by decide, by decide, by decide⟩
  have type := wellFormed.type.fragment
  have list := fragment_listTail wellFormed
  have enclosed : Fragment ('(' :: listTail prototype) :=
    .append_cons glue_opening (.inl rfl) (.inr list)
  have inner := fragment_pointerInner wellFormed listed
  unfold Prototype.render
  split
  · exact .append_cons glue_opening (.inr (fragment_routineHead wellFormed listed)) (.inr list)
  · exact type.append_space (.append_cons glue_opening (.inl rfl)
      (.inr (.append_cons closing (.inr inner) (.inr enclosed))))
  · exact type.append_space wellFormed.name.fragment

/-- The word in front of a name decides that more than a type is declared. -/
theorem definesType_eq_false {type rest : Text} (isType : IsType type) (more : words rest ≠ []) :
    definesType (type ++ ' ' :: rest) = false := by
  have parts : words (type ++ ' ' :: rest) = words type ++ words rest :=
    words_append_white (by decide) type rest
  obtain ⟨first, others, same⟩ := List.exists_cons_of_ne_nil isType.words_ne_nil
  obtain ⟨next, later, following⟩ := List.exists_cons_of_ne_nil more
  have defined := isType.defined
  have named := isType.named
  rw [same] at defined named
  have notTypedef : first ≠ "typedef".toList := fun keyword => defined (by rw [keyword]; rfl)
  rw [definesType, parts, same, following]
  cases others with
  | nil =>
      cases later with
      | nil =>
          have listed : first ∉ ["typedef".toList, "struct".toList, "union".toList,
              "enum".toList, "class".toList] := by
            simp only [List.mem_cons, List.cons.injEq, and_true, List.not_mem_nil, or_false,
              not_or] at named ⊢
            exact ⟨notTypedef, named⟩
          change List.contains _ first = false
          rw [List.contains_eq_mem, decide_eq_false_iff_not]
          exact listed
      | cons other later => exact decide_eq_false notTypedef
  | cons other others => cases others <;> exact decide_eq_false notTypedef

theorem spaceStars_eq {text : Text} (plain : '*' ∉ text) : spaceStars text = text := by
  induction text with
  | nil => rfl
  | cons letter text inductionHypothesis =>
      simp only [List.mem_cons, not_or] at plain
      have rest := inductionHypothesis plain.2
      rw [spaceStars] at rest
      rw [spaceStars, List.flatMap_cons, if_neg fun same => plain.1 same.symm, rest]
      rfl

theorem spaceStars_append_space (first second : Text) :
    spaceStars (first ++ ' ' :: second) = spaceStars first ++ ' ' :: spaceStars second := by
  simp [spaceStars]

/-- Stars that are words already stay words. -/
theorem words_spaceStars {entries : List Text}
    (each : ∀ word ∈ entries, word = ['*'] ∨ isIdentifier word = true) :
    words (spaceStars (unwords entries)) = entries := by
  have alone {word : Text} (known : word = ['*'] ∨ isIdentifier word = true) :
      words (spaceStars word) = [word] := by
    rcases known with rfl | identifier
    · decide
    · rw [spaceStars_eq (not_mem_of_isIdentifier identifier (by decide))]
      exact words_of_solid (ne_nil_of_isIdentifier identifier) fun letter member =>
        (unrestricted_of_isIdentifier identifier letter member).1
  induction entries with
  | nil => simp [unwords, join, spaceStars]
  | cons word entries inductionHypothesis =>
      have first := alone (each word (List.mem_cons_self ..))
      cases entries with
      | nil => simpa [unwords, join] using first
      | cons next entries =>
          have rest := inductionHypothesis fun other member =>
            each other (List.mem_cons_of_mem _ member)
          rw [unwords_cons_cons, spaceStars_append_space, words_append_white (by decide), first,
            rest, List.singleton_append]

/-- The words of a type name no convention. -/
theorem IsType.ofKeyword? {type : Text} (isType : IsType type) :
    ∀ word ∈ words type, Convention.ofKeyword? word = none := by
  intro word member
  rcases isType.each word member with rfl | isName
  · decide
  · exact isName.other

theorem words_routineHead (wellFormed : prototype.WellFormed)
    (listed : keyword ∈ prototype.convention.keywords) :
    routineWords (routineHead keyword prototype) =
      words prototype.type ++ ([keyword] ++ [prototype.name]) := by
  have filled := wellFormed.type.words_ne_nil
  have head : routineHead keyword prototype =
      unwords ((words prototype.type ++ [keyword]) ++ [prototype.name]) := by
    rw [unwords_append_singleton (by simp), unwords_append_singleton filled,
      wellFormed.type.spaced, List.append_assoc]
    rfl
  have each : ∀ word ∈ (words prototype.type ++ [keyword]) ++ [prototype.name],
      word = ['*'] ∨ isIdentifier word = true := by
    intro word member
    simp only [List.mem_append, List.mem_singleton] at member
    rcases member with (member | rfl) | rfl
    · exact (wellFormed.type.each word member).imp_right IsName.identifier
    · exact .inr (keyword_spec listed).1
    · exact .inr wellFormed.name.identifier
  rw [routineWords, head, words_spaceStars each, List.append_assoc]

theorem not_mem_routineHead (wellFormed : prototype.WellFormed)
    (listed : keyword ∈ prototype.convention.keywords) {letter : Char}
    (foreign : isIdentifierLetter letter = false) (other : letter ≠ ' ' ∧ letter ≠ '*') :
    letter ∉ routineHead keyword prototype := by
  have inType := wellFormed.type.not_mem foreign other
  have inKeyword := not_mem_of_isIdentifier (keyword_spec listed).1 foreign
  have inName := not_mem_of_isIdentifier wellFormed.name.identifier foreign
  simp [routineHead, inType, inKeyword, inName, other.1]

theorem words_pointerInner (wellFormed : prototype.WellFormed)
    (listed : keyword ∈ prototype.convention.keywords) :
    pointerWords (pointerInner keyword prototype) = [keyword] ++ [prototype.name] := by
  have kept {name : Text} (identifier : isIdentifier name = true) :
      name.map (fun letter => if letter = '*' then ' ' else letter) = name := by
    have same : name.map (fun letter => if letter = '*' then ' ' else letter) = name.map id := by
      refine List.map_congr_left fun letter member => if_neg ?_
      intro equal
      subst equal
      exact not_mem_of_isIdentifier identifier (by decide) member
    rw [same, List.map_id]
  have word {name : Text} (identifier : isIdentifier name = true) : words name = [name] :=
    words_of_solid (ne_nil_of_isIdentifier identifier) fun letter member =>
      (unrestricted_of_isIdentifier identifier letter member).1
  have spaced : (pointerInner keyword prototype).map
        (fun letter => if letter = '*' then ' ' else letter) =
      keyword ++ ' ' :: ([] ++ ' ' :: prototype.name) := by
    rw [pointerInner, List.map_append, List.map_cons, List.map_cons, kept (keyword_spec listed).1,
      kept wellFormed.name.identifier]
    rfl
  rw [pointerWords, spaced, words_append_white (by decide), words_append_white (by decide),
    word (keyword_spec listed).1, word wellFormed.name.identifier, words_nil]
  rfl

theorem definesType_render (wellFormed : prototype.WellFormed) (keyword : Text) :
    definesType (prototype.render keyword) = false := by
  obtain ⟨letter, others, same⟩ :=
    List.exists_cons_of_ne_nil (ne_nil_of_isIdentifier wellFormed.name.identifier)
  have solid : isWhite letter = false := by
    refine (unrestricted_of_isIdentifier wellFormed.name.identifier letter ?_).1
    rw [same]
    exact List.mem_cons_self ..
  unfold Prototype.render
  split
  · rw [routineHead, List.append_assoc]
    exact definesType_eq_false wellFormed.type (words_ne_nil (by simp [same]) solid)
  · exact definesType_eq_false wellFormed.type (words_ne_nil (by simp [pointerInner, same]) solid)
  · exact definesType_eq_false wellFormed.type (words_ne_nil (by simp [same]) solid)

/-- A declared prototype is neither a body nor the definition of a type. -/
theorem isIgnored_render (wellFormed : prototype.WellFormed)
    (listed : keyword ∈ prototype.convention.keywords) :
    isIgnored (prototype.render keyword) = false := by
  have body : (prototype.render keyword).contains '\x7b' = false := by
    rw [List.contains_eq_mem, decide_eq_false_iff_not]
    intro member
    exact ((fragment_render wellFormed listed).plain _ member).2.1 rfl
  rw [isIgnored, body, definesType_render wellFormed keyword, Bool.false_or]

/-- The list of a declared prototype is read back, with the registers of its convention. -/
theorem parameters_recorded (wellFormed : prototype.WellFormed) :
    parameters prototype.convention (parameterList prototype.parameters prototype.variadic) =
      .ok (prototype.recorded.parameters, prototype.variadic) := by
  rw [parameters_parameterList _ _ wellFormed.parameters, assignRegisters_eq]
  rfl

theorem isBalanced_parameterList (wellFormed : prototype.WellFormed) :
    isBalanced 0 (parameterList prototype.parameters prototype.variadic) = true :=
  isBalanced_of_closing? (closing?_parameterList _ wellFormed.parameters [])

theorem declares_routine (wellFormed : prototype.WellFormed)
    (listed : keyword ∈ prototype.convention.keywords) (kind : prototype.kind = .routine) :
    Declares (prototype.render keyword) prototype.recorded := by
  have shape : prototype.render keyword = routineHead keyword prototype ++
      '(' :: (parameterList prototype.parameters prototype.variadic ++ ')' :: []) := by
    rw [Prototype.render, kind]
    rfl
  have head : '(' ∉ routineHead keyword prototype :=
    not_mem_routineHead wellFormed listed (by decide) (by decide)
  have unmarked : ¬['@', '<'] <:+: routineHead keyword prototype := fun found =>
    not_mem_routineHead wellFormed listed (by decide) (by decide)
      (found.subset (List.mem_cons_of_mem _ (List.mem_cons_self ..)))
  have marked : UpToMark (trim (routineHead keyword prototype)) (routineHead keyword prototype) := by
    rw [(fragment_routineHead wellFormed listed).spaced.trim_eq]
    exact .whole unmarked
  have declares := Declares.of_routineWords shape head (isBalanced_parameterList wellFormed)
    (by decide) marked (words_routineHead wellFormed listed) wellFormed.type.words_ne_nil
    wellFormed.type.ofKeyword? (.keyword listed) wellFormed.name.identifier wellFormed.name.other
    (parameters_recorded wellFormed)
  rw [wellFormed.type.spaced] at declares
  rw [Prototype.recorded, kind]
  exact declares

theorem declares_pointer (wellFormed : prototype.WellFormed)
    (listed : keyword ∈ prototype.convention.keywords) (kind : prototype.kind = .pointer) :
    Declares (prototype.render keyword) prototype.recorded := by
  have shape : prototype.render keyword = (prototype.type ++ [' ']) ++
      '(' :: (pointerInner keyword prototype ++ ')' :: '(' :: listTail prototype) := by
    simp [Prototype.render, kind]
  have head : '(' ∉ prototype.type ++ [' '] := by
    simpa using wellFormed.type.not_mem (show isIdentifierLetter '(' = false by decide) (by decide)
  have plain {name : Text} (identifier : isIdentifier name = true) : '(' ∉ name ∧ ')' ∉ name :=
    ⟨not_mem_of_isIdentifier identifier (by decide), not_mem_of_isIdentifier identifier (by decide)⟩
  have inner := plain (keyword_spec listed).1
  have name := plain wellFormed.name.identifier
  have balanced : isBalanced 0 (pointerInner keyword prototype) = true :=
    isBalanced_of_plain (by simp [pointerInner, inner, name]) (by simp [pointerInner, inner, name])
  have tail : Fragment ('(' :: listTail prototype) :=
    .append_cons glue_opening (.inl rfl) (.inr (fragment_listTail wellFormed))
  have type := wellFormed.type.fragment.spaced.trim_append_space
  have declares := Declares.of_pointerWords shape head balanced tail.spaced.trim_eq
    (isBalanced_parameterList wellFormed) (by simp [pointerInner])
    (by rw [type]; exact wellFormed.type.filled) (words_pointerInner wellFormed listed)
    (.keyword listed) wellFormed.name.identifier wellFormed.name.other
    (parameters_recorded wellFormed)
  rw [type] at declares
  rw [Prototype.recorded, kind]
  exact declares

theorem declares_data (wellFormed : prototype.WellFormed) (keyword : Text)
    (kind : prototype.kind = .data) : Declares (prototype.render keyword) prototype.recorded := by
  obtain ⟨convention, parameters, variadic⟩ := wellFormed.data kind
  have shape : prototype.render keyword = prototype.type ++ ' ' :: prototype.name := by
    rw [Prototype.render, kind]
  have foreign {letter : Char} (foreign : isIdentifierLetter letter = false)
      (other : letter ≠ ' ' ∧ letter ≠ '*') : letter ∉ prototype.type ++ ' ' :: prototype.name := by
    simpa [other.1] using
      ⟨wellFormed.type.not_mem foreign other, not_mem_of_isIdentifier wellFormed.name.identifier
        foreign⟩
  have typed : IsTyped (trim (prototype.type ++ ' ' :: prototype.name)) prototype.type
      prototype.name := by
    rw [(wellFormed.type.fragment.append_space wellFormed.name.fragment).spaced.trim_eq]
    exact .append_space wellFormed.type.fragment.spaced wellFormed.name.identifier
  have declares : Declares (prototype.type ++ ' ' :: prototype.name)
      ⟨prototype.name, prototype.type, .data, .cdecl, [], false⟩ :=
    .data (foreign (by decide) (by decide)) (List.append_nil _).symm
      (foreign (by decide) (by decide)) (by simp) typed
  rw [shape, Prototype.recorded, kind, convention, parameters, variadic]
  exact declares

/-- The text of a declared prototype is read back. -/
theorem prototype?_render (wellFormed : prototype.WellFormed)
    (listed : keyword ∈ prototype.convention.keywords) :
    prototype? (prototype.render keyword) = .ok (some prototype.recorded) := by
  refine prototype?_eq_some_iff.2 ⟨isIgnored_render wellFormed listed, ?_⟩
  cases kind : prototype.kind with
  | routine => exact declares_routine wellFormed listed kind
  | pointer => exact declares_pointer wellFormed listed kind
  | data => exact declares_data wellFormed keyword kind

/-- A declared prototype starts with its type, which starts with no hash. -/
theorem head?_render (wellFormed : prototype.WellFormed) (keyword : Text) :
    ∀ letter, (prototype.render keyword).head? = some letter → letter ≠ '#' := by
  have starts : ∃ rest, prototype.render keyword = prototype.type ++ rest := by
    unfold Prototype.render
    split
    · exact ⟨_, List.append_assoc ..⟩
    · exact ⟨_, rfl⟩
    · exact ⟨_, rfl⟩
  obtain ⟨rest, same⟩ := starts
  obtain ⟨first, others, type⟩ := List.exists_cons_of_ne_nil wellFormed.type.filled
  intro letter head
  rw [same, type] at head
  intro equal
  subst equal
  apply wellFormed.type.not_mem (show isIdentifierLetter '#' = false by decide) (by decide)
  rw [type, Option.some.inj head]
  exact List.mem_cons_self ..

/-- A header with one declared prototype records exactly that prototype. -/
theorem Database.ofText_render (read : Text → Option (List UInt8)) (file : Text)
    (wellFormed : prototype.WellFormed) (listed : keyword ∈ prototype.convention.keywords)
    (unannotated : ¬annotationMark <:+: prototype.render keyword) :
    ∃ database, Database.ofText read file (prototype.render keyword ++ [';']) = .ok database ∧
      database.size = 1 ∧
      ∀ name, database.lookup? name =
        if prototype.name = name then some prototype.recorded else none := by
  have fragment := fragment_render wellFormed listed
  have found := events_statement (fragment.isStatement (head?_render wellFormed keyword))
  refine ⟨Database.empty.insert prototype.recorded, ?_, ?_, fun name => ?_⟩
  · rw [Database.ofText, Database.depthLimit, Database.readText, found, List.foldlM_cons,
      Database.declare, fragment.withoutSpecifiers_eq unannotated,
      prototype?_render wellFormed listed]
    rfl
  · rw [Database.size, Database.insert, Std.TreeMap.size_insert]
    rfl
  · rw [Database.lookup?_insert]
    simp [Database.lookup?, Database.empty, Prototype.recorded]

/-- A pointer with a nested parameter, a written register and one from its convention. -/
theorem Database.ofText_render_pointer :
    ∃ database, Database.ofText (fun _ => none) "game.h".toList
        "struct item * (__fastcall *handler)(int (*)(int, int), char * name@<ebx>, ...);".toList =
          .ok database ∧
      database.size = 1 ∧
      database.lookup? "handler".toList =
        some ⟨"handler".toList, "struct item *".toList, .pointer, .fastcall,
          [⟨"int (*)(int, int)".toList, some .ecx⟩, ⟨"char * name".toList, some .ebx⟩], true⟩ := by
  have absent {pattern text : Text} {letter : Char} (member : letter ∈ pattern)
      (missing : letter ∉ text) : ¬pattern <:+: text := fun found => missing (found.subset member)
  have each : ∀ word ∈ words "struct item *".toList, word = ['*'] ∨ IsName word := by
    intro word member
    have known : word ∈ ["struct".toList, "item".toList, ['*']] := member
    simp only [List.mem_cons, List.not_mem_nil, or_false] at known
    rcases known with rfl | rfl | rfl
    · exact .inr ⟨by decide, by decide, by decide⟩
    · exact .inr ⟨by decide, by decide, by decide⟩
    · exact .inl rfl
  have type : IsType "struct item *".toList := ⟨by decide, by decide, each, by decide, by decide⟩
  have slash : '/' ∈ ['/', '/'] ∧ '/' ∈ ['/', '*'] ∧ '@' ∈ ['@', '<'] := by decide
  have first : IsParameter "int (*)(int, int)".toList :=
    ⟨by decide, by decide, by decide, by decide, absent slash.1 (by decide),
      absent slash.2.1 (by decide), by decide, absent slash.2.2 (by decide), by decide⟩
  have second : IsParameter "char * name".toList :=
    ⟨by decide, by decide, by decide, by decide, absent slash.1 (by decide),
      absent slash.2.1 (by decide), by decide, absent slash.2.2 (by decide), by decide⟩
  have wellFormed : Prototype.WellFormed ⟨"handler".toList, "struct item *".toList, .pointer,
      .fastcall, [⟨"int (*)(int, int)".toList, none⟩, ⟨"char * name".toList, some .ebx⟩], true⟩ :=
    ⟨⟨by decide, by decide, by decide⟩, type, List.forall_mem_cons.2 ⟨first,
      List.forall_mem_cons.2 ⟨second, by simp⟩⟩, by simp⟩
  obtain ⟨database, read, single, entries⟩ := Database.ofText_render (fun _ => none)
    "game.h".toList wellFormed (show "__fastcall".toList ∈ _ by decide)
    (absent (show 'p' ∈ annotationMark by decide) (by decide))
  exact ⟨database, read, single, (entries "handler".toList).trans (by decide)⟩

end

end DataSegment.Header
