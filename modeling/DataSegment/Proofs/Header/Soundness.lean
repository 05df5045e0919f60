import DataSegment.Proofs.Header.Concatenation
import DataSegment.Proofs.Header.Marks
import DataSegment.Text.Latin
import Mathlib.Data.List.DropRight

namespace DataSegment.Header

open Text

/-- Every comma of a text stands inside parentheses. Here `depth` counts the parentheses that were
opened before. -/
def EnclosesCommas (depth : Nat) (text : Text) : Prop :=
  ∀ before after, text = before ++ ',' :: after → before.count ')' < depth + before.count '('

/-- What holds of a statement and of the prototype that it declares. -/
structure IsSound (statement : Text) (prototype : Prototype) : Prop where
  declared : prototype? (withoutSpecifiers statement) = .ok (some prototype)
  identifier : isIdentifier prototype.name = true
  typed : prototype.type ≠ []
  trimmed : trim prototype.type = prototype.type
  data : prototype.kind = .data →
    prototype.parameters = [] ∧ prototype.convention = .cdecl ∧ prototype.variadic = false
  fastcall : prototype.convention = .fastcall →
    ∀ parameter ∈ prototype.parameters.take 2, parameter.register ≠ none
  thiscall : prototype.convention = .thiscall →
    ∀ parameter ∈ prototype.parameters.take 1, parameter.register ≠ none
  commas : ∀ parameter ∈ prototype.parameters, EnclosesCommas 0 parameter.text
  /-- Only a register mark of its own makes a parameter of a part that is otherwise left out. -/
  marked : prototype.kind ≠ .data →
    ∃ list, Lists (withoutSpecifiers statement) prototype.kind list ∧
      List.Forall₂ (fun part parameter => parameter.text = voidWord ∨ parameter.text = ellipsis →
          ∃ register, IsArgument part ⟨parameter.text, some register⟩ ∧
            parameter.register = some register)
        (listedParts list) prototype.parameters

/-- A text holds a statement itself or in a file that it includes. -/
inductive HoldsStatement (read : Text → Option (List UInt8)) : Text → Text → Text → Prop where
  | own {directory source text : Text} {line : Nat}
      (member : .statement line text ∈ events source) : HoldsStatement read directory source text
  | included {directory source target text : Text} {line : Nat} {bytes : List UInt8}
      (member : .inclusion line target ∈ events source)
      (found : read (Files.join directory target) = some bytes)
      (inside : HoldsStatement read (Files.parent (Files.join directory target))
        (Unicode.decode bytes) text) : HoldsStatement read directory source text

namespace Database

/-- Every prototype is found by its own name and was declared by one of the statements. -/
def IsSound (database : Database) (statements : Text → Prop) : Prop :=
  ∀ name prototype, database.lookup? name = some prototype →
    prototype.name = name ∧ ∃ statement, statements statement ∧ Header.IsSound statement prototype

/-- The databases that there are while a text is read over a first one: behind each event of the
text, and behind each event of a file that it includes. It does not matter what comes later. -/
inductive Passes (read : Text → Option (List UInt8)) :
    Nat → Text → Text → Text → Database → Database → Prop where
  | behind {allowed : Nat} {file directory source : Text} {database reached : Database}
      {earlier later : List Event} (parts : events source = earlier ++ later)
      (declared : earlier.foldlM (declare file (followFrom read allowed file directory)) database =
        .ok reached) :
      Passes read allowed file directory source database reached
  | inside {allowed line : Nat} {file directory source target : Text} {bytes : List UInt8}
      {database here reached : Database} {earlier later : List Event}
      (parts : events source = earlier ++ .inclusion line target :: later)
      (declared : earlier.foldlM (declare file (followFrom read (allowed + 1) file directory))
        database = .ok here)
      (found : read (Files.join directory target) = some bytes)
      (passes : Passes read allowed (Files.join directory target)
        (Files.parent (Files.join directory target)) (Unicode.decode bytes) here reached) :
      Passes read (allowed + 1) file directory source database reached

end Database

namespace EnclosesCommas

variable {depth : Nat} {text : Text}

theorem nil (depth : Nat) : EnclosesCommas depth [] := by
  intro before after parts
  simp at parts

/-- A parenthesis changes the depth of what follows it. -/
theorem cons {next : Nat} {letter : Char} (later : EnclosesCommas next text)
    (comma : letter = ',' → 0 < depth)
    (level : next + [letter].count ')' ≤ depth + [letter].count '(') :
    EnclosesCommas depth (letter :: text) := by
  intro before after parts
  cases before with
  | nil =>
      obtain ⟨rfl, _⟩ := List.cons.inj parts
      simpa using comma rfl
  | cons head before =>
      obtain ⟨rfl, rest⟩ := List.cons.inj parts
      have inner := later before after rest
      rw [List.count_cons, List.count_cons (l := before)]
      simp only [List.count_singleton] at level
      omega

theorem of_append {rest : Text} (enclosed : EnclosesCommas depth (text ++ rest)) :
    EnclosesCommas depth text := by
  rintro before after rfl
  exact enclosed before (after ++ rest) (by simp)

theorem trim (enclosed : EnclosesCommas depth text) : EnclosesCommas depth (Text.trim text) := by
  have start : EnclosesCommas depth (trimStart text) := by
    intro before after parts
    have whole : text = (text.takeWhile isWhite ++ before) ++ ',' :: after := by
      rw [List.append_assoc, ← parts]
      exact List.takeWhile_append_dropWhile.symm
    have opening : '(' ∉ text.takeWhile isWhite := fun member =>
      absurd (List.mem_takeWhile_imp member) (by decide)
    have closing : ')' ∉ text.takeWhile isWhite := fun member =>
      absurd (List.mem_takeWhile_imp member) (by decide)
    have inner := enclosed _ after whole
    rwa [List.count_append, List.count_append, List.count_eq_zero.2 opening,
      List.count_eq_zero.2 closing, Nat.zero_add, Nat.zero_add] at inner
  obtain ⟨rest, parts⟩ := List.rdropWhile_prefix isWhite (trimStart text)
  rw [← parts] at start
  exact start.of_append

/-- The parts of a list have commas only inside parentheses. The first part can start inside. -/
theorem of_splitCommas {list first : Text} {others : List Text}
    (balanced : isBalanced depth list = true) (split : splitCommas depth list = first :: others) :
    EnclosesCommas depth first ∧ ∀ other ∈ others, EnclosesCommas 0 other := by
  induction list generalizing depth first others with
  | nil =>
      obtain ⟨rfl, rfl⟩ := List.cons.inj split
      exact ⟨nil depth, by simp⟩
  | cons letter list inductionHypothesis =>
      have step {next : Nat} (inner : isBalanced next list = true)
          (extended : extendPart letter (splitCommas next list) = first :: others)
          (comma : letter = ',' → 0 < depth)
          (level : next + [letter].count ')' ≤ depth + [letter].count '(') :
          EnclosesCommas depth first ∧ ∀ other ∈ others, EnclosesCommas 0 other := by
        obtain ⟨part, rest, parts⟩ := List.exists_cons_of_ne_nil (splitCommas_ne_nil next list)
        rw [parts] at extended
        obtain ⟨rfl, rfl⟩ := List.cons.inj extended
        obtain ⟨later, kept⟩ := inductionHypothesis inner parts
        exact ⟨later.cons comma level, kept⟩
      unfold isBalanced at balanced
      rw [splitCommas] at split
      split at balanced
      · rename_i opening
        rw [if_pos opening] at split
        exact step balanced split (by simp [opening]) (by simp [opening])
      · rename_i other
        rw [if_neg other] at split
        split at balanced
        · rename_i closing
          rw [if_pos closing] at split
          cases depth with
          | zero => contradiction
          | succ depth => exact step balanced split (by simp [closing]) (by simp [closing])
        · rename_i plain
          rw [if_neg plain] at split
          have level : depth + [letter].count ')' ≤ depth + [letter].count '(' := by
            simp [List.count_singleton, plain]
          split at split
          · rename_i separates
            -- Behind a comma that separates no parenthesis is open.
            obtain ⟨rfl, rfl⟩ := List.cons.inj split
            obtain ⟨part, rest, parts⟩ :=
              List.exists_cons_of_ne_nil (splitCommas_ne_nil depth list)
            obtain ⟨later, kept⟩ := inductionHypothesis balanced parts
            rw [separates.2] at later
            rw [parts]
            exact ⟨nil depth, List.forall_mem_cons.2 ⟨later, kept⟩⟩
          · rename_i joined
            exact step balanced split (fun comma => Nat.pos_of_ne_zero (joined ⟨comma, ·⟩)) level

theorem of_mem_listedParts {list part : Text} (balanced : isBalanced 0 list = true)
    (member : part ∈ listedParts list) : EnclosesCommas 0 part := by
  obtain ⟨whole, listed, rfl⟩ := List.mem_map.1 (List.mem_filter.1 member).1
  obtain ⟨first, others, parts⟩ := List.exists_cons_of_ne_nil (splitCommas_ne_nil 0 list)
  obtain ⟨start, kept⟩ := of_splitCommas balanced parts
  rw [parts] at listed
  rcases List.mem_cons.1 listed with rfl | listed
  · exact start.trim
  · exact (kept whole listed).trim

/-- The text of a parameter is the part or what stands in front of its register mark. -/
theorem of_isArgument {part : Text} {register : Option Register}
    (enclosed : EnclosesCommas depth part) (argument : IsArgument part ⟨text, register⟩) :
    EnclosesCommas depth text := by
  cases argument with
  | plain => exact enclosed
  | marked => exact enclosed.of_append.trim

end EnclosesCommas

theorem Lists.isBalanced {text list : Text} {kind : Kind} (lists : Lists text kind list) :
    isBalanced 0 list = true := by
  cases lists with
  | routine _ _ balanced => exact balanced
  | pointer _ _ _ _ balanced => exact balanced

/-- The parameter that a part declares can have a register that is not marked in the part. -/
def IsRecorded (part : Text) (parameter : Parameter) : Prop :=
  ∃ written, IsArgument part ⟨parameter.text, written⟩ ∧
    ∀ register, written = some register → parameter.register = some register

/-- A part that is left out without a register mark is a parameter only with one. -/
theorem IsRecorded.exists_register {list part : Text} {parameter : Parameter}
    (recorded : IsRecorded part parameter) (listed : part ∈ listedParts list)
    (bare : parameter.text = voidWord ∨ parameter.text = ellipsis) :
    ∃ register, IsArgument part ⟨parameter.text, some register⟩ ∧
      parameter.register = some register := by
  obtain ⟨text, own⟩ := parameter
  obtain ⟨written, argument, taken⟩ := recorded
  cases written with
  | some register => exact ⟨register, argument, taken register rfl⟩
  | none =>
      cases argument with
      | plain =>
          have kept := (List.mem_filter.1 listed).2
          simp only [decide_eq_true_eq] at kept
          exact absurd bare (not_or.2 kept.2)

namespace Prototype

variable {prototype : Prototype}

theorem forall₂_recorded {parts : List Text}
    (each : List.Forall₂ IsArgument parts prototype.parameters) :
    List.Forall₂ IsRecorded parts prototype.recorded.parameters := by
  obtain ⟨length, argument⟩ := List.forall₂_iff_get.1 each
  refine List.forall₂_iff_get.2 ⟨by simpa [recorded] using length, fun index first second => ?_⟩
  have inside : index < prototype.parameters.length := length ▸ first
  refine ⟨prototype.parameters[index].register, ?_, fun register marked => ?_⟩
  · simpa [recorded] using argument index first inside
  · simp [recorded, marked]

/-- A leading parameter has a register when the convention has one for it. -/
theorem register_of_mem_take {parameter : Parameter}
    (member : parameter ∈ prototype.recorded.parameters.take
      prototype.convention.defaultRegisters.length) : parameter.register ≠ none := by
  obtain ⟨index, bound, rfl⟩ := List.mem_iff_getElem.1 member
  rw [List.length_take] at bound
  have leading : index < prototype.convention.defaultRegisters.length := by omega
  simp [recorded, List.getElem?_eq_getElem leading]

end Prototype

namespace Declares

variable {text : Text} {prototype : Prototype}

theorem named_and_typed (declares : Declares text prototype) :
    isIdentifier prototype.name = true ∧ prototype.type ≠ [] ∧
      trim prototype.type = prototype.type := by
  have typed {whole type name : Text} (typed : IsTyped whole type name) :
      isIdentifier name = true ∧ type ≠ [] ∧ trim type = type := by
    obtain ⟨_, _, _, _, rfl⟩ := typed.parts
    exact ⟨typed.identifier, typed.typed, trim_trim _⟩
  cases declares with
  | data _ _ _ _ isTyped => exact typed isTyped
  | routine _ _ _ _ _ isTyped _ => exact typed isTyped
  | pointer _ _ _ _ _ _ filled _ identifier _ => exact ⟨identifier, filled, trim_trim _⟩

theorem eq_of_data (declares : Declares text prototype) (kind : prototype.kind = .data) :
    prototype.parameters = [] ∧ prototype.convention = .cdecl ∧ prototype.variadic = false := by
  cases declares with
  | data => exact ⟨rfl, rfl, rfl⟩
  | routine | pointer => contradiction

theorem register_of_mem_take (declares : Declares text prototype) {parameter : Parameter}
    (member : parameter ∈ prototype.parameters.take
      prototype.convention.defaultRegisters.length) : parameter.register ≠ none := by
  by_cases kind : prototype.kind = .data
  · rw [(declares.eq_of_data kind).1] at member
    simp at member
  · obtain ⟨_, written, _, _, recorded⟩ := declares.exists_arguments kind
    rw [congrArg Prototype.parameters recorded] at member
    exact @Prototype.register_of_mem_take { prototype with parameters := written } parameter member

/-- The parameters of a statement are recorded for the parts of its list. -/
theorem exists_recorded (declares : Declares text prototype) (kind : prototype.kind ≠ .data) :
    ∃ list, Lists text prototype.kind list ∧
      List.Forall₂ IsRecorded (listedParts list) prototype.parameters := by
  obtain ⟨list, written, lists, each, recorded⟩ := declares.exists_arguments kind
  refine ⟨list, lists, ?_⟩
  rw [congrArg Prototype.parameters recorded]
  exact @Prototype.forall₂_recorded { prototype with parameters := written } _ each

end Declares

/-- What a statement declares is sound. -/
theorem isSound_of_declared {statement : Text} {prototype : Prototype}
    (declared : prototype? (withoutSpecifiers statement) = .ok (some prototype)) :
    IsSound statement prototype := by
  have declares := (prototype?_eq_some_iff.1 declared).2
  obtain ⟨identifier, typed, trimmed⟩ := declares.named_and_typed
  refine ⟨declared, identifier, typed, trimmed, declares.eq_of_data,
    fun convention parameter member => declares.register_of_mem_take (by rwa [convention]),
    fun convention parameter member => declares.register_of_mem_take (by rwa [convention]),
    fun parameter member => ?_, fun kind => ?_⟩
  · by_cases kind : prototype.kind = .data
    · rw [(declares.eq_of_data kind).1] at member
      contradiction
    · obtain ⟨list, lists, each⟩ := declares.exists_recorded kind
      obtain ⟨part, listed, _, argument, _⟩ := Results.exists_of_mem_left each.flip member
      exact (EnclosesCommas.of_mem_listedParts lists.isBalanced listed).of_isArgument argument
  · obtain ⟨list, lists, each⟩ := declares.exists_recorded kind
    have known := (List.forall₂_and_left _ _).2 ⟨fun part listed => listed, each⟩
    exact ⟨list, lists, known.imp fun part parameter both bare =>
      both.2.exists_register both.1 bare⟩

namespace Database

variable {read : Text → Option (List UInt8)} {statements : Text → Prop} {allowed : Nat}
  {file directory source : Text} {follow : Follow} {database reached : Database}

theorem isSound_empty (statements : Text → Prop) : empty.IsSound statements := by
  intro name prototype found
  rw [lookup?_empty] at found
  contradiction

/-- A later declaration of a name replaces the earlier one by a sound one. -/
theorem IsSound.insert (sound : database.IsSound statements) {statement : Text}
    {prototype : Prototype} (holds : statements statement)
    (declared : prototype? (withoutSpecifiers statement) = .ok (some prototype)) :
    (database.insert prototype).IsSound statements := by
  intro name other found
  rw [lookup?_insert] at found
  split at found
  · rename_i same
    obtain rfl := Option.some.inj found
    exact ⟨same, statement, holds, isSound_of_declared declared⟩
  · exact sound name other found

/-- No event makes a sound database unsound when no inclusion does. -/
theorem IsSound.declare (sound : database.IsSound statements) {event : Event}
    (own : ∀ line text, event = .statement line text → statements text)
    (included : ∀ line target next, event = .inclusion line target →
      follow line target database = .ok next → next.IsSound statements)
    (declared : declare file follow database event = .ok reached) :
    reached.IsSound statements := by
  cases event with
  | statement line text =>
      rw [Database.declare] at declared
      split at declared
      · contradiction
      · obtain rfl := Except.ok.inj declared
        exact sound
      · rename_i prototype found
        obtain rfl := Except.ok.inj declared
        exact sound.insert (own line text rfl) found
  | inclusion line target => exact included line target reached rfl declared
  | openComment | openStatement => contradiction

theorem IsSound.foldlM_declare {events : List Event} (sound : database.IsSound statements)
    (own : ∀ line text, .statement line text ∈ events → statements text)
    (included : ∀ line target database next, .inclusion line target ∈ events →
      database.IsSound statements → follow line target database = .ok next →
      next.IsSound statements)
    (declared : events.foldlM (Database.declare file follow) database = .ok reached) :
    reached.IsSound statements := by
  induction events generalizing database with
  | nil =>
      obtain rfl := Except.ok.inj declared
      exact sound
  | cons event events inductionHypothesis =>
      rw [List.foldlM_cons, Results.bind_eq_ok_iff] at declared
      obtain ⟨next, step, later⟩ := declared
      have kept : next.IsSound statements :=
        sound.declare (fun line text same => own line text (same ▸ List.mem_cons_self ..))
          (fun line target next same =>
            included line target database next (same ▸ List.mem_cons_self ..) sound) step
      exact inductionHypothesis kept
        (fun line text member => own line text (List.mem_cons_of_mem _ member))
        (fun line target database next member =>
          included line target database next (List.mem_cons_of_mem _ member)) later

/-- An included file keeps a database sound, whatever it includes itself. -/
theorem IsSound.followFrom (sound : database.IsSound statements) {line : Nat} {target : Text}
    (member : .inclusion line target ∈ events source)
    (all : ∀ text, HoldsStatement read directory source text → statements text)
    (followed : followFrom read allowed file directory line target database = .ok reached) :
    reached.IsSound statements := by
  -- The depth that is left carries the induction: an included file includes with one level less.
  induction allowed generalizing file directory source line target database reached with
  | zero => contradiction
  | succ allowed inductionHypothesis =>
      rw [Database.followFrom] at followed
      dsimp only at followed
      split at followed
      · contradiction
      · rename_i bytes found
        rw [readText_eq] at followed
        have inside (text : Text) := fun holds => all text (.included member found holds)
        exact sound.foldlM_declare (fun line text listed => inside text (.own listed))
          (fun line target database next listed kept =>
            inductionHypothesis kept listed inside) followed

/-- Behind any event of a text the database is sound. -/
theorem IsSound.foldlM_front (sound : database.IsSound statements) {earlier later : List Event}
    (parts : events source = earlier ++ later)
    (all : ∀ text, HoldsStatement read directory source text → statements text)
    (declared : earlier.foldlM (Database.declare file
      (Database.followFrom read allowed file directory)) database = .ok reached) :
    reached.IsSound statements := by
  have listed {event : Event} (member : event ∈ earlier) : event ∈ events source := by
    rw [parts]
    exact List.mem_append_left _ member
  exact sound.foldlM_declare (fun line text member => all text (.own (listed member)))
    (fun line target database next member kept => kept.followFrom (listed member) all) declared

/-- Every database that is passed while a text is read is sound. -/
theorem IsSound.of_passes (sound : database.IsSound statements)
    (passes : Passes read allowed file directory source database reached)
    (all : ∀ text, HoldsStatement read directory source text → statements text) :
    reached.IsSound statements := by
  induction passes with
  | behind parts declared => exact sound.foldlM_front parts all declared
  | @inside _ line _ _ source target _ _ _ _ _ _ parts declared found _ inductionHypothesis =>
      have member : .inclusion line target ∈ events source := by simp [parts]
      exact inductionHypothesis (sound.foldlM_front parts all declared) fun text holds =>
        all text (.included member found holds)

/-- A text that is read passes the database that it declares. -/
theorem passes_of_readText
    (declared : readText read allowed file directory source database = .ok reached) :
    Passes read allowed file directory source database reached := by
  rw [readText_eq] at declared
  exact .behind (List.append_nil _).symm declared

/-- A statement that declares a prototype puts it in the place of an earlier one of its name. -/
theorem exists_declare (database : Database) (file : Text) (follow : Follow) (line : Nat)
    {statement : Text} {prototype : Prototype}
    (declared : prototype? (withoutSpecifiers statement) = .ok (some prototype)) :
    ∃ next, declare file follow database (.statement line statement) = .ok next ∧
      ∀ name, next.lookup? name =
        if prototype.name = name then some prototype else database.lookup? name := by
  refine ⟨database.insert prototype, ?_, lookup?_insert database prototype⟩
  rw [declare, declared]

/-- What is loaded from a header text or a file tree is sound, and so is every database that is
passed on the way, for the statements of the text and of the files that it includes. Every statement
that declares a prototype is passed with its entry. -/
theorem load_isSound (read : Text → Option (List UInt8)) :
    (∀ allowed file directory source reached,
      Passes read allowed file directory source empty reached →
        reached.IsSound (HoldsStatement read directory source)) ∧
    (∀ file follow database line statement prototype,
      prototype? (withoutSpecifiers statement) = .ok (some prototype) →
        ∃ next, declare file follow database (.statement line statement) = .ok next ∧
          ∀ name, next.lookup? name =
            if prototype.name = name then some prototype else database.lookup? name) ∧
    (∀ file source database, ofText read file source = .ok database →
      database.IsSound (HoldsStatement read ['.'] source)) ∧
    ∀ path database, load read path = .ok database → ∃ bytes, read path = some bytes ∧
      database.IsSound (HoldsStatement read (Files.parent path) (Unicode.decode bytes)) := by
  have passed {allowed : Nat} {file directory source : Text} {reached : Database}
      (passes : Passes read allowed file directory source empty reached) :
      reached.IsSound (HoldsStatement read directory source) :=
    (isSound_empty _).of_passes passes fun _ holds => holds
  refine ⟨fun _ _ _ _ _ => passed, fun file follow database line _ _ declared =>
      exists_declare database file follow line declared,
    fun _ _ _ loaded => passed (passes_of_readText loaded), fun path database loaded => ?_⟩
  rw [load] at loaded
  split at loaded
  · contradiction
  · rename_i bytes found
    exact ⟨bytes, found, passed (passes_of_readText loaded)⟩

/-- An included file declares a name again. -/
theorem load_isSound_again :
    let read := fun path : Text => some (Latin.encode
      (if path = ['b'] then "int __fastcall f(void@<ebx>, char);".toList
      else "int f;\n#include \"b\"\n".toList))
    ∃ database bytes, load read ['a'] = .ok database ∧ read ['a'] = some bytes ∧
      database.IsSound (HoldsStatement read [] (Unicode.decode bytes)) ∧
      database.lookup? ['f'] =
        some ⟨['f'], "int".toList, .routine, .fastcall,
          [⟨"void".toList, some .ebx⟩, ⟨"char".toList, some .edx⟩], false⟩ := by
  intro read
  have found : (load read ['a']).toOption.bind (fun database => database.lookup? ['f']) =
      some ⟨['f'], "int".toList, .routine, .fastcall,
        [⟨"void".toList, some .ebx⟩, ⟨"char".toList, some .edx⟩], false⟩ := by
    decide +kernel
  obtain ⟨_, _, _, sound⟩ := load_isSound read
  cases loaded : load read ['a'] with
  | error error =>
      rw [loaded] at found
      contradiction
  | ok database =>
      rw [loaded] at found
      obtain ⟨bytes, read, holds⟩ := sound ['a'] database loaded
      exact ⟨database, bytes, rfl, read, holds, found⟩

end Database

end DataSegment.Header
