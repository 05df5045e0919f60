import DataSegment.Proofs.Header.Concatenation
import DataSegment.Proofs.Header.Forms
import DataSegment.Proofs.Header.Slices
import DataSegment.Proofs.Results

namespace DataSegment.Header.Sliced

open Results Text Text.Unicode

/-- Splits a type from the name behind its last blank or star, which is taken to be one byte. -/
def typeAndName? (text : Text) : Option (Option (Text × Text)) :=
  match lastOffset? endsType text with
  | none => some none
  | some place => do
      let name ← slice? (place + 1) (size text) text
      let type ← slice? 0 (place + 1) text
      some (if !(trim type).isEmpty && isIdentifier (trim name) then some (trim type, trim name)
        else none)

/-- Reads a parameter and the register that is marked in it. -/
def parameter (text : Text) : Checked Fault Parameter :=
  match offset? ['@', '<'] text with
  | none => pure ⟨text, none⟩
  | some mark => do
      let marked ← slice? mark (size text) text
      match offset? ['>'] marked with
      | none => throw (.malformed text)
      | some stop =>
          let name ← slice? (mark + 2) (mark + stop) text
          match Register.ofName? name with
          | none => throw (.unknownRegister name)
          | some register =>
              let type ← slice? 0 mark text
              pure ⟨trim type, some register⟩

/-- Reads the text between the parentheses of a parameter list. -/
def parameters (convention : Convention) (text : Text) : Checked Fault (List Parameter × Bool) := do
  let parts := (← splitFrom text 0 0 0 text).map trim
  let written := parts.filter fun part => part ≠ [] ∧ part ≠ voidWord ∧ part ≠ ellipsis
  let read ← written.mapM parameter
  pure (assignRegisters convention.defaultRegisters read, parts.contains ellipsis)

/-- A name with a type, and with dimensions in brackets that are ignored. -/
def dataPrototype (text : Text) : Checked Fault Prototype := do
  match ← typeAndName? (trim (text.takeWhile (· != '['))) with
  | none => throw (.malformed text)
  | some (type, name) => pure ⟨name, type, .data, .cdecl, [], false⟩

/-- A pointer to a routine. Its parameter list is cut out of a tail that starts with the
parenthesis. -/
def pointerPrototype (text type inner tail : Text) : Checked Fault Prototype :=
  if inner.contains '*' && !type.isEmpty then do
    match ← partner? 0 tail with
    | none => throw (.malformed text)
    | some stop =>
        match (withoutKeywords (pointerWords inner)).getLast?.filter isIdentifier with
        | none => throw (.malformed text)
        | some name =>
            let list ← slice? 1 stop tail
            let read ← parameters (convention (pointerWords inner)) list
            pure ⟨name, type, .pointer, convention (pointerWords inner), read.1, read.2⟩
  else throw (.malformed text)

/-- What stands in front of the first register mark of a head. -/
def upToMark? (head : Text) : Option Text :=
  match offset? ['@', '<'] head with
  | none => some head
  | some mark => slice? 0 mark head

/-- A routine has its type, convention and name before the parameter list. -/
def routinePrototype (text head list : Text) : Checked Fault Prototype := do
  let named ← upToMark? head
  match ← typeAndName? (unwords (withoutKeywords (routineWords named))) with
  | none => throw (.malformed text)
  | some (type, name) =>
      let read ← parameters (convention (routineWords named)) list
      pure ⟨name, type, .routine, convention (routineWords named), read.1, read.2⟩

/-- Reads a statement without specifiers. -/
def prototype? (text : Text) : Checked Fault (Option Prototype) :=
  if isIgnored text then pure none
  else
    match offset? ['('] text with
    | none => some <$> dataPrototype text
    | some opening => do
        match ← partner? opening text with
        | none => throw (.malformed text)
        | some stop =>
            let head ← slice? 0 opening text
            let inner ← slice? (opening + 1) stop text
            let rest ← slice? (stop + 1) (size text) text
            if (trim rest).head? = some '(' then
              some <$> pointerPrototype text (trim head) inner (trim rest)
            else some <$> routinePrototype text (trim head) inner

/-- What a line holds, and the state behind it. -/
def readLine (line : Nat) (scan : Scan) (raw : Text) : Option (List Event × Scan) := do
  let stripped ← withoutComments scan.inside raw
  let scan :=
    { scan with
      inside := stripped.2
      opened := if !scan.inside && stripped.2 then line else scan.opened }
  if scan.isDirective stripped.1 then
    let target ← includedFile? (trim stripped.1)
    some ((target.map (Event.inclusion line)).toList, scan)
  else
    let read := Scan.readCode line scan stripped.1
    some (read.1, Scan.push line read.2 ' ')

/-- The lines are counted on from `line`. -/
def readLines (line : Nat) (scan : Scan) : List Text → Option (List Event × Scan)
  | [] => some ([], scan)
  | raw :: rest => do
      let read ← readLine line scan raw
      let later ← readLines (line + 1) read.2 rest
      some (read.1 ++ later.1, later.2)

/-- The events of a header text. -/
def events (source : Text) : Option (List Event) :=
  (readLines 1 Scan.initial (lines source)).map fun read => read.1 ++ read.2.finish

/-- Declares what an event tells about; `follow` adds what an included file declares. -/
def declare (file : Text) (follow : Nat → Text → Database → Checked Error Database)
    (database : Database) : Event → Checked Error Database
  | .statement line text => do
      let statement ← withoutSpecifiers text
      match ← ExceptT.adapt (Fault.locate file line) (prototype? statement) with
      | none => pure database
      | some prototype => pure (database.insert prototype)
  | .inclusion line target => follow line target database
  | .openComment line => throw (.openComment file line)
  | .openStatement line text => throw (.malformed file line text)

/-- Declares the contents of a text in order, with the files that it includes. -/
def readText (read : Text → Option (List UInt8)) (allowed : Nat) (file directory source : Text)
    (database : Database) : Checked Error Database := do
  let found ← events source
  match allowed with
  | 0 =>
      found.foldlM (declare file fun line target _ => throw (.includeDepth file line target))
        database
  | allowed + 1 =>
      found.foldlM
        (declare file fun _ target database =>
          let path := Files.join directory target
          match read path with
          | none => throw (.unreadable path)
          | some bytes =>
              readText read allowed path (Files.parent path) (Unicode.decode bytes) database)
        database

/-- A header text of its own. -/
def ofText (read : Text → Option (List UInt8)) (file source : Text) : Checked Error Database :=
  readText read Database.depthLimit file ['.'] source Database.empty

/-- A header file. -/
def load (read : Text → Option (List UInt8)) (path : Text) : Checked Error Database :=
  match read path with
  | none => throw (.unreadable path)
  | some bytes =>
      readText read Database.depthLimit path (Files.parent path) (Unicode.decode bytes)
        Database.empty

/-- The only blanks of a text are spaces. -/
def OnlySpaces (text : Text) : Prop := ∀ letter ∈ text, isWhite letter = true → letter = ' '

/-- What comes apart into a type and a name: a statement about data up to its dimensions, or the
words of a routine that name no convention. -/
inductive IsDeclarator (statement : Text) : Text → Prop where
  | data (flat : '(' ∉ statement) : IsDeclarator statement (trim (statement.takeWhile (· != '[')))
  | routine {head named list rest : Text} (parts : statement = head ++ '(' :: (list ++ ')' :: rest))
      (first : '(' ∉ head) (balanced : isBalanced 0 list = true)
      (marked : UpToMark (trim head) named) :
      IsDeclarator statement (unwords (withoutKeywords (routineWords named)))

variable {text : Text}

theorem parameter_present (text : Text) : parameter text = present (Parameter.ofText text) := by
  rw [parameter, Parameter.ofText]
  cases found : breakOn? ['@', '<'] text with
  | none =>
      rw [offset?_eq, found]
      rfl
  | some halves =>
      obtain ⟨before, after⟩ := halves
      obtain ⟨place, front, _⟩ := slices_of_breakOn? found
      have whole : text = before ++ '@' :: '<' :: after := by
        rw [eq_append_of_breakOn? found, List.append_assoc]
        rfl
      have marked : slice? (size before) (size text) text = some ('@' :: '<' :: after) := by
        rw [whole, slice?_back]
      rw [place]
      dsimp only
      rw [marked, lift_some_bind]
      cases closed : breakOn? ['>'] after with
      | none =>
          have missing : breakOn? ['>'] ('@' :: '<' :: after) = none := by
            rw [breakOn?_eq_none_iff (by simp), List.singleton_infix_iff] at closed ⊢
            simpa using closed
          rw [offset?_eq, missing]
          rfl
      | some halves =>
          obtain ⟨name, behind⟩ := halves
          obtain ⟨rfl, absent⟩ := breakOn?_singleton_iff.1 closed
          have closing : breakOn? ['>'] ('@' :: '<' :: (name ++ '>' :: behind)) =
              some ('@' :: '<' :: name, behind) :=
            breakOn?_singleton_iff.2 ⟨rfl, by simpa using absent⟩
          have register : slice? (size before + 2) (size before + size ('@' :: '<' :: name)) text =
              some name := by
            refine slice?_eq_some_iff.2 ⟨before ++ ['@', '<'], '>' :: behind, ?_, ?_, ?_⟩
            · rw [whole]
              simp
            · rw [size_append]
              rfl
            · rw [List.append_assoc, ← size_append]
              rfl
          rw [offset?_eq, closing, Option.map_some]
          dsimp only
          rw [register, lift_some_bind]
          cases Register.ofName? name with
          | none => rfl
          | some register =>
              dsimp only
              rw [front, lift_some_bind]
              rfl

theorem parameters_present (convention : Convention) (balanced : isBalanced 0 text = true) :
    parameters convention text = present (Header.parameters convention text) := by
  rw [parameters, splitFrom_present balanced, lift_some_bind]
  dsimp only
  rw [mapM_present fun part _ => parameter_present part]
  exact present_map _ _

/-- A letter that ends a type takes one byte when a blank can only be a space. -/
theorem utf8Size_of_endsType {letter : Char} (plain : isWhite letter = true → letter = ' ')
    (ends : endsType letter = true) : letter.utf8Size = 1 := by
  rw [endsType, Bool.or_eq_true, beq_iff_eq] at ends
  rcases ends with white | rfl
  · rw [plain white]
    rfl
  · rfl

theorem typeAndName?_present (plain : OnlySpaces text) :
    typeAndName? text = some (Header.typeAndName? text) := by
  rcases exists_last_endsType text with solid | ⟨front, letter, name, rfl, ends, solid⟩
  · rw [typeAndName?, lastOffset?_eq_none solid, typeAndName?_of_solid solid]
  · have narrow : letter.utf8Size = 1 := utf8Size_of_endsType (plain letter (by simp)) ends
    have place : size (front ++ [letter]) = size front + 1 := by
      rw [size_append_singleton, narrow]
    have parts : front ++ letter :: name = (front ++ [letter]) ++ name := by simp
    have type : slice? 0 (size front + 1) (front ++ letter :: name) = some (front ++ [letter]) := by
      rw [← place, parts, slice?_front]
    have behind : slice? (size front + 1) (size (front ++ letter :: name))
        (front ++ letter :: name) = some name := by
      rw [← place, parts, slice?_back]
    have trimmed : trim name = name := by
      refine trim_of_solid fun other member => ?_
      have inner := solid other member
      rw [endsType, Bool.or_eq_false_iff] at inner
      exact inner.1
    rw [typeAndName?, lastOffset?_append ends solid, typeAndName?_append ends solid]
    dsimp only
    rw [behind, type, Option.bind_eq_bind, Option.bind_some]
    dsimp only [Option.bind_eq_bind, Option.bind_some]
    rw [trimmed]

/-- Trimming a text brings in no letters. -/
theorem mem_of_mem_trim {letter : Char} (member : letter ∈ trim text) : letter ∈ text := by
  have inner := (List.dropWhile_sublist isWhite).mem (List.mem_reverse.1 member)
  exact (List.dropWhile_sublist isWhite).mem (List.mem_reverse.1 inner)

theorem OnlySpaces.declarator (plain : OnlySpaces text) :
    OnlySpaces (trim (text.takeWhile (· != '['))) :=
  fun letter member => plain letter ((List.takeWhile_sublist _).mem (mem_of_mem_trim member))

theorem dataPrototype_present (plain : OnlySpaces text) :
    dataPrototype text = present (Header.dataPrototype text) := by
  rw [dataPrototype, Header.dataPrototype, typeAndName?_present plain.declarator,
    lift_some_bind]
  cases Header.typeAndName? (trim (text.takeWhile (· != '['))) <;> rfl

theorem pointerPrototype_present (text type inner tail : Text) :
    pointerPrototype text type inner ('(' :: tail) =
      present (Header.pointerPrototype text type inner tail) := by
  rw [pointerPrototype, Header.pointerPrototype, ← pointerWords]
  split
  · cases closed : closing? 0 tail with
    | none =>
        have partner : partner? 0 ('(' :: tail) = some none := by
          have parts := (List.nil_append ('(' :: tail)).symm
          have found := partner?_eq parts
          rwa [closed] at found
        rw [partner]
        rfl
    | some halves =>
        obtain ⟨list, behind⟩ := halves
        have parts := (List.nil_append ('(' :: tail)).symm
        obtain ⟨partner, inside, _⟩ := slices_of_closing? parts closed
        have balanced := isBalanced_of_closing? closed
        change partner? 0 _ = _ at partner
        change slice? 1 _ _ = _ at inside
        rw [partner, lift_some_bind]
        dsimp only
        cases (withoutKeywords (pointerWords inner)).getLast?.filter isIdentifier with
        | none => rfl
        | some name =>
            dsimp only
            rw [inside, lift_some_bind, parameters_present _ balanced]
            exact present_map _ _
  · rfl

theorem upToMark?_of_upToMark {head named : Text} (marked : UpToMark head named) :
    upToMark? head = some named := by
  rw [upToMark?]
  cases marked with
  | whole unmarked =>
      rw [offset?_eq, breakOn?_eq_none unmarked]
      rfl
  | cut first after =>
      obtain ⟨place, front, _⟩ := slices_of_breakOn? (breakOn?_append first after)
      change offset? _ (named ++ '@' :: '<' :: after) = _ at place
      rw [place]
      exact front

/-- Words come with no other blanks than spaces. -/
theorem onlySpaces_routineWords (named : Text) :
    OnlySpaces (unwords (withoutKeywords (routineWords named))) := by
  intro letter member white
  rcases mem_unwords member with space | ⟨word, listed, inside⟩
  · exact space
  · have solid := solid_of_mem_words (List.mem_filter.1 listed).1 letter inside
    rw [solid] at white
    contradiction

theorem routinePrototype_present {list : Text} (balanced : isBalanced 0 list = true)
    (text head : Text) :
    routinePrototype text head list = present (Header.routinePrototype text head list) := by
  obtain ⟨named, marked⟩ := exists_upToMark head
  rw [marked.routinePrototype_eq, routinePrototype, Header.routinePrototype,
    upToMark?_of_upToMark marked, breakOn?_eq_none marked.unmarked, lift_some_bind,
    typeAndName?_present (onlySpaces_routineWords named), lift_some_bind]
  dsimp only
  rw [← routineWords]
  cases Header.typeAndName? (unwords (withoutKeywords (routineWords named))) with
  | none => rfl
  | some halves =>
      dsimp only
      rw [parameters_present _ balanced]
      exact present_map _ _

theorem prototype?_present (plain : OnlySpaces text) :
    prototype? text = present (Header.prototype? text) := by
  rw [prototype?, Header.prototype?, ← isIgnored]
  split
  · rfl
  · cases found : breakOn? ['('] text with
    | none =>
        rw [offset?_eq, found, dataPrototype_present plain]
        exact present_map _ _
    | some halves =>
        obtain ⟨head, after⟩ := halves
        obtain ⟨place, front, _⟩ := slices_of_breakOn? found
        obtain ⟨parts, _⟩ := breakOn?_singleton_iff.1 found
        rw [place]
        dsimp only
        cases closed : closing? 0 after with
        | none =>
            rw [partner?_eq parts, closed]
            rfl
        | some halves =>
            obtain ⟨inner, rest⟩ := halves
            obtain ⟨partner, inside, behind⟩ := slices_of_closing? parts closed
            have balanced := isBalanced_of_closing? closed
            rw [partner, lift_some_bind]
            dsimp only
            rw [front, lift_some_bind, inside, lift_some_bind, behind, lift_some_bind]
            split
            · rename_i starts
              obtain ⟨tail, same⟩ := List.head?_eq_some_iff.1 starts
              rw [same, pointerPrototype_present]
              exact present_map _ _
            · rename_i other
              split
              · rename_i tail same
                exact absurd (congrArg List.head? same) other
              · rw [routinePrototype_present balanced]
                exact present_map _ _

theorem readLine_present (line : Nat) (scan : Scan) (raw : Text) :
    readLine line scan raw = some (scan.readLine line raw) := by
  rw [readLine, Scan.readLine, withoutComments_present, Option.bind_eq_bind, Option.bind_some]
  dsimp only
  rw [includedFile?_present]
  exact (apply_ite some _ _ _).symm

theorem readLines_present (line : Nat) (scan : Scan) (lines : List Text) :
    readLines line scan lines = some (scan.readLines line lines) := by
  induction lines generalizing line scan with
  | nil => rfl
  | cons raw lines inductionHypothesis =>
      rw [readLines, readLine_present, Option.bind_eq_bind, Option.bind_some,
        inductionHypothesis]
      rfl

theorem events_present (source : Text) : events source = some (Header.events source) := by
  rw [events, readLines_present]
  rfl

/-- A statement without specifiers has no other blanks than spaces. -/
theorem onlySpaces_withoutSpecifiers (text : Text) :
    OnlySpaces (Header.withoutSpecifiers text) := by
  rcases (isStripped_withoutSpecifiers text).spaced with empty | spaced
  · simp [OnlySpaces, empty]
  · exact spaced.plain

section Files

variable {file : Text} {follow : Nat → Text → Database → Checked Error Database}
  {other : Database.Follow}

theorem declare_present
    (follows : ∀ line target database,
      follow line target database = present (other line target database))
    (database : Database) (event : Event) :
    declare file follow database event = present (Database.declare file other database event) := by
  cases event with
  | statement line text =>
      rw [declare, Database.declare, withoutSpecifiers_present, lift_some_bind,
        prototype?_present (onlySpaces_withoutSpecifiers text)]
      cases Header.prototype? (Header.withoutSpecifiers text) with
      | error fault => rfl
      | ok found => cases found <;> rfl
  | inclusion line target => exact follows line target database
  | openComment line => rfl
  | openStatement line text => rfl

theorem readText_present (read : Text → Option (List UInt8)) (allowed : Nat)
    (file directory source : Text) (database : Database) :
    readText read allowed file directory source database =
      present (Database.readText read allowed file directory source database) := by
  induction allowed generalizing file directory source database with
  | zero =>
      rw [readText, Database.readText, events_present, lift_some_bind]
      exact foldlM_present (declare_present fun _ _ _ => rfl) _ _
  | succ allowed inductionHypothesis =>
      rw [readText, Database.readText, events_present, lift_some_bind]
      refine foldlM_present (declare_present fun line target database => ?_) _ _
      dsimp only
      cases read (Files.join directory target) with
      | none => rfl
      | some bytes => exact inductionHypothesis ..

end Files

/-- Both ways lead to a text without other blanks than spaces. -/
theorem IsDeclarator.onlySpaces {statement declarator : Text}
    (declares : IsDeclarator (Header.withoutSpecifiers statement) declarator) :
    OnlySpaces declarator := by
  cases declares with
  | data => exact (onlySpaces_withoutSpecifiers statement).declarator
  | routine => exact onlySpaces_routineWords _

/-- A slice is there exactly when it lies within its text and both ends of it are between
characters. No slice that is taken for a header text or a header file is missing, so that there is
always a database or an error. The last blank or star of what comes apart into a type and a name
takes one byte, because all blanks are spaces by then. -/
theorem load_boundaries (read : Text → Option (List UInt8)) :
    (∀ start stop text, (slice? start stop text).isSome = true ↔
      start ≤ stop ∧ String.Pos.Raw.IsValid (String.ofList text) ⟨start⟩ ∧
        String.Pos.Raw.IsValid (String.ofList text) ⟨stop⟩) ∧
      (∀ file source, (ofText read file source).run = some (Database.ofText read file source)) ∧
      (∀ path, (load read path).run = some (Database.load read path)) ∧
      ∀ statement declarator, IsDeclarator (Header.withoutSpecifiers statement) declarator →
        OnlySpaces declarator ∧
          (∀ letter ∈ declarator, endsType letter = true → letter.utf8Size = 1) ∧
          ∀ place, lastOffset? endsType declarator = some place →
            String.Pos.Raw.IsValid (String.ofList declarator) ⟨place + 1⟩ := by
  refine ⟨fun start stop text => isSome_slice?_iff, fun file source => ?_, fun path => ?_,
    fun statement declarator declares => ?_⟩
  · rw [ofText, readText_present]
    rfl
  · rw [load, Database.load]
    cases read path with
    | none => rfl
    | some bytes => exact congrArg ExceptT.run (readText_present ..)
  · have plain := declares.onlySpaces
    have narrow (letter : Char) (member : letter ∈ declarator) (ends : endsType letter = true) :
        letter.utf8Size = 1 := utf8Size_of_endsType (plain letter member) ends
    refine ⟨plain, narrow, fun place found => ?_⟩
    rcases exists_last_endsType declarator with solid | ⟨front, letter, name, rfl, ends, solid⟩
    · rw [lastOffset?_eq_none solid] at found
      contradiction
    · rw [lastOffset?_append ends solid] at found
      obtain rfl := Option.some.inj found
      refine isValid_iff.2 ⟨front ++ [letter], name, by simp, ?_⟩
      rw [size_append_singleton, narrow letter (by simp) ends]

/-- Behind a blank of three bytes the name could not be cut out, but the blank is a space by then. -/
example : typeAndName? "int\u2003x".toList = none ∧
    typeAndName? (Header.withoutSpecifiers "int\u2003x".toList) =
      some (some ("int".toList, "x".toList)) := by decide +kernel

end DataSegment.Header.Sliced
