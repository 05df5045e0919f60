import DataSegment.Proofs.Header.Arguments
import DataSegment.Proofs.Header.Statement

namespace DataSegment.Header

open Text

/-- The argument list of a statement that declares a routine or a pointer to one. -/
inductive Lists (text : Text) : Kind → Text → Prop where
  | routine {head list rest : Text} (parts : text = head ++ '(' :: (list ++ ')' :: rest))
      (first : '(' ∉ head) (balanced : isBalanced 0 list = true)
      (ends : (trim rest).head? ≠ some '(') : Lists text .routine list
  | pointer {head inner rest list behind : Text}
      (parts : text = head ++ '(' :: (inner ++ ')' :: rest)) (first : '(' ∉ head)
      (inside : isBalanced 0 inner = true) (tail : trim rest = '(' :: (list ++ ')' :: behind))
      (balanced : isBalanced 0 list = true) : Lists text .pointer list

/-- The parts of a list that declare a parameter. Commas inside parentheses end no part. -/
def listedParts (list : Text) : List Text :=
  ((splitCommas 0 list).map trim).filter fun part =>
    part ≠ [] ∧ part ≠ voidWord ∧ part ≠ ellipsis

/-- A part is marked with a register outside the argument lists nested in it. The first such mark
counts. -/
def IsMarked (part : Text) (register : Register) : Prop :=
  ∃ before word after, part = before ++ '@' :: '<' :: (word ++ '>' :: after) ∧
    isBalanced 0 before = true ∧
    (∀ front back, before = front ++ '@' :: '<' :: back → isBalanced 0 front = false) ∧
    '>' ∉ word ∧ sameLetters register.name word = true

/-- The first register mark of a part, when it stands in an argument list nested in the part. -/
def IsMarkedInside (part before after : Text) : Prop :=
  part = before ++ '@' :: '<' :: after ∧ ¬['@', '<'] <:+: before ++ ['@'] ∧
    isBalanced 0 before = false

/-- A part is read as the parameter that it declares. -/
theorem Parameter.ofText_eq_ok_iff {part : Text} {parameter : Parameter} :
    Parameter.ofText part = .ok parameter ↔ IsArgument part parameter := by
  refine ⟨fun read => ?_, Parameter.ofText_of_isArgument⟩
  unfold Parameter.ofText at read
  split at read
  · rename_i missing
    obtain rfl := Except.ok.inj read
    exact .plain ((breakOn?_eq_none_iff (by simp)).1 missing)
  · rename_i before behind found
    obtain ⟨parts, first⟩ := (breakOn?_eq_some_iff (by simp)).1 found
    split at read
    · contradiction
    · rename_i word after closed
      obtain ⟨rfl, ends⟩ := breakOn?_singleton_iff.1 closed
      split at read
      · contradiction
      · rename_i register named
        obtain rfl := Except.ok.inj read
        rw [parts, List.append_assoc]
        exact .marked first ends (Register.ofName?_eq_some_iff.1 named) after

theorem parameters_eq_ok_iff {convention : Convention} {list : Text}
    {read : List Parameter × Bool} :
    parameters convention list = .ok read ↔
      ∃ declared, List.Forall₂ IsArgument (listedParts list) declared ∧
        read = (declared.mapIdx fun index parameter =>
            ⟨parameter.text, parameter.register.or convention.defaultRegisters[index]?⟩,
          ((splitCommas 0 list).map trim).contains ellipsis) := by
  unfold parameters
  dsimp only
  rw [Results.map_eq_ok_iff]
  refine exists_congr fun declared => and_congr ?_ ?_
  · rw [Results.mapM_eq_ok_iff, ← listedParts]
    exact ⟨fun each => each.imp fun _ _ => Parameter.ofText_eq_ok_iff.1,
      fun each => each.imp fun _ _ => Parameter.ofText_eq_ok_iff.2⟩
  · rw [assignRegisters_eq, eq_comm]

theorem IsArgument.unique {part : Text} {first second : Parameter} (left : IsArgument part first)
    (right : IsArgument part second) : first = second :=
  Except.ok.inj
    ((Parameter.ofText_of_isArgument left).symm.trans (Parameter.ofText_of_isArgument right))

section

variable {part : Text} {register : Register} {parameter : Parameter}

/-- A mark of the part itself counts when the first mark stands in no nested list. -/
theorem IsMarked.exists_isArgument (marked : IsMarked part register)
    (outside : ∀ before after, ¬IsMarkedInside part before after) :
    ∃ text, IsArgument part ⟨text, some register⟩ := by
  obtain ⟨before, word, after, rfl, _, own, ends, named⟩ := marked
  refine ⟨trim before, .marked (fun found => ?_) ends named after⟩
  rcases infix_pair_append found with earlier | short | ⟨_, starts⟩
  · obtain ⟨⟨front, back⟩, broken⟩ := Option.ne_none_iff_exists'.1 fun missing =>
      (breakOn?_eq_none_iff (by simp)).1 missing earlier
    obtain ⟨parts, first⟩ := (breakOn?_eq_some_iff (by simp)).1 broken
    rw [List.append_assoc] at parts
    refine outside front (back ++ '@' :: '<' :: (word ++ '>' :: after))
      ⟨?_, first, own front back parts⟩
    rw [parts, List.append_assoc]
    rfl
  · exact absurd short.length_le (by simp)
  · exact absurd starts (by decide)

theorem IsArgument.register_eq_some_iff (argument : IsArgument part parameter)
    (outside : ∀ before after, ¬IsMarkedInside part before after) :
    parameter.register = some register ↔ IsMarked part register := by
  constructor
  · intro passed
    cases argument with
    | plain unmarked => contradiction
    | @marked before word other first ends named after =>
        obtain rfl := Option.some.inj passed
        refine ⟨before, word, after, rfl, ?_, fun front back parts => ?_, ends, named⟩
        · by_contra nested
          exact outside before _ ⟨rfl, first, Bool.eq_false_iff.2 nested⟩
        · exact absurd ⟨front, back ++ ['@'], by simp [parts]⟩ first
  · intro marked
    obtain ⟨text, found⟩ := marked.exists_isArgument outside
    rw [argument.unique found]

/-- A mark of a nested list counts when it comes first. The rest of the argument is lost. -/
theorem IsArgument.of_isMarkedInside (argument : IsArgument part parameter) {before after : Text}
    (inside : IsMarkedInside part before after) :
    ∃ word rest register, after = word ++ '>' :: rest ∧
      sameLetters register.name word = true ∧ parameter = ⟨trim before, some register⟩ := by
  obtain ⟨rfl, first, _⟩ := inside
  have found : breakOn? ['@', '<'] (before ++ '@' :: '<' :: after) = some (before, after) :=
    breakOn?_append first after
  generalize whole : before ++ '@' :: '<' :: after = part at argument found
  cases argument with
  | plain unmarked =>
      rw [breakOn?_eq_none unmarked] at found
      contradiction
  | @marked front word register earlier ends named rest =>
      have also : breakOn? ['@', '<'] (front ++ '@' :: '<' :: (word ++ '>' :: rest)) =
          some (front, word ++ '>' :: rest) := breakOn?_append earlier _
      obtain ⟨rfl, rfl⟩ := Prod.mk.inj (Option.some.inj (also.symm.trans found))
      exact ⟨word, rest, register, rfl, named, rfl⟩

end

/-- A routine and a pointer to one have the parameters that their list declares. -/
theorem Declares.exists_arguments {text : Text} {prototype : Prototype}
    (declares : Declares text prototype) (kind : prototype.kind ≠ .data) :
    ∃ list declared, Lists text prototype.kind list ∧
      List.Forall₂ IsArgument (listedParts list) declared ∧
      prototype = { prototype with parameters := declared }.recorded := by
  cases declares with
  | data => contradiction
  | routine parts first balanced ends marked typed listed =>
      obtain ⟨declared, each, rfl⟩ := parameters_eq_ok_iff.1 listed
      exact ⟨_, declared, .routine parts first balanced ends, each, rfl⟩
  | pointer parts first inside tail balanced star typed last identifier listed =>
      obtain ⟨declared, each, rfl⟩ := parameters_eq_ok_iff.1 listed
      exact ⟨_, declared, .pointer parts first inside tail balanced, each, rfl⟩

/-- The parameters of a statement are its arguments in order, with the registers of the convention
where none is written. An argument has the register that it is marked with itself unless the first
mark stands in an argument list that is nested in it: then it has the register of that mark. -/
theorem prototype?_listed {text : Text} {prototype : Prototype}
    (found : prototype? text = .ok (some prototype)) (kind : prototype.kind ≠ .data) :
    ∃ list declared, Lists text prototype.kind list ∧
      prototype = { prototype with parameters := declared }.recorded ∧
      prototype.registers = (passing prototype.convention declared).reduceOption ∧
      prototype.stackCount = (passing prototype.convention declared).countP Option.isNone ∧
      List.Forall₂ (fun part parameter =>
          ((∀ before after, ¬IsMarkedInside part before after) →
            ∀ register, parameter.register = some register ↔ IsMarked part register) ∧
          ∀ before after, IsMarkedInside part before after →
            ∃ word rest register, after = word ++ '>' :: rest ∧
              sameLetters register.name word = true ∧ parameter = ⟨trim before, some register⟩)
        (listedParts list) declared := by
  obtain ⟨list, declared, lists, each, same⟩ :=
    (prototype?_eq_some_iff.1 found).2.exists_arguments kind
  refine ⟨list, declared, lists, same, ?_, ?_, each.imp fun part parameter argument =>
    ⟨fun outside register => argument.register_eq_some_iff outside,
      fun before after => argument.of_isMarkedInside⟩⟩
  · exact (congrArg Prototype.registers same).trans registers_recorded
  · exact (congrArg Prototype.stackCount same).trans stackCount_recorded

/-- The registers of a routine with one marked parameter. -/
theorem prototype?_listed_marked :
    ∃ list declared, Lists "int __usercall f(int a@<eax>, int b)".toList .routine list ∧
      [Register.eax] = (passing .usercall declared).reduceOption ∧
      1 = (passing .usercall declared).countP Option.isNone := by
  have found : prototype? "int __usercall f(int a@<eax>, int b)".toList =
      .ok (some ⟨['f'], "int".toList, .routine, .usercall,
        [⟨"int a".toList, some .eax⟩, ⟨"int b".toList, none⟩], false⟩) := by decide +kernel
  obtain ⟨list, declared, lists, _, registers, stack, _⟩ := prototype?_listed found (by decide)
  exact ⟨list, declared, lists, registers, stack⟩

/-- An argument without a mark of its own is passed in the register of a parameter nested in it. -/
theorem Database.ofText_listed_nested :
    ∃ database prototype,
      Database.ofText (fun _ => none) []
        "int __usercall f(void (*cb)(int a@<eax>), int b);".toList = .ok database ∧
      database.lookup? ['f'] = some prototype ∧
      prototype.parameters =
        [⟨"void (*cb)(int a".toList, some .eax⟩, ⟨"int b".toList, none⟩] ∧
      prototype.registers = [.eax] ∧ prototype.stackCount = 1 ∧
      listedParts "void (*cb)(int a@<eax>), int b".toList =
        ["void (*cb)(int a@<eax>)".toList, "int b".toList] ∧
      ∀ register, ¬IsMarked "void (*cb)(int a@<eax>)".toList register := by
  have events : events "int __usercall f(void (*cb)(int a@<eax>), int b);".toList =
      [.statement 1 "int __usercall f(void (*cb)(int a@<eax>), int b)".toList] := by
    decide +kernel
  obtain ⟨prototype, declared, name, list, registers, stack⟩ : ∃ prototype,
      prototype? (withoutSpecifiers "int __usercall f(void (*cb)(int a@<eax>), int b)".toList) =
        .ok (some prototype) ∧ prototype.name = ['f'] ∧
      prototype.parameters =
        [⟨"void (*cb)(int a".toList, some .eax⟩, ⟨"int b".toList, none⟩] ∧
      prototype.registers = [.eax] ∧ prototype.stackCount = 1 :=
    ⟨⟨['f'], "int".toList, .routine, .usercall,
      [⟨"void (*cb)(int a".toList, some .eax⟩, ⟨"int b".toList, none⟩], false⟩,
      by decide +kernel, rfl, rfl, rfl, rfl⟩
  refine ⟨Database.empty.insert prototype, prototype, ?_, ?_, list, registers, stack,
    by decide +kernel, ?_⟩
  · rw [Database.ofText, Database.readText_eq, events, List.foldlM_cons, Database.declare, declared]
    rfl
  · rw [Database.lookup?_insert, if_pos name]
  · rintro register ⟨before, word, after, parts, outside, _⟩
    -- The part has one mark only, and a list is open in front of it.
    have single : '@' ∉ before := by
      intro member
      have count := congrArg (List.count '@') parts
      rw [List.count_append, List.count_cons_self] at count
      have once : List.count '@' "void (*cb)(int a@<eax>)".toList = 1 := by decide
      have occurs := List.count_pos_iff.2 member
      omega
    have found := breakOn?_singleton_iff.2 ⟨parts, single⟩
    have known : breakOn? ['@'] "void (*cb)(int a@<eax>)".toList =
        some ("void (*cb)(int a".toList, "<eax>)".toList) := by decide +kernel
    obtain ⟨rfl, _⟩ := Prod.mk.inj (Option.some.inj (known.symm.trans found))
    exact absurd outside (by decide)

end DataSegment.Header
