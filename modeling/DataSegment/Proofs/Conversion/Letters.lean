import DataSegment.Proofs.Assembly.Letters
import DataSegment.Proofs.Conversion.Declarations
import DataSegment.Proofs.Listing.Line

namespace DataSegment

open Assembly Listing
open Text (isOwn foreign foreign_append foreign_flatMap foreign_eq_nil mem_foreign)

namespace Listing

theorem Quoted.exists_of_cons_closed {letter : Char} {quoted : Quoted} {content : Text}
    (closed : quoted.cons letter = .closed content) :
    ∃ rest, quoted = .closed rest ∧ content = letter :: rest := by
  cases quoted with
  | closed rest => exact ⟨rest, rfl, (Quoted.closed.inj closed).symm⟩
  | trailed => contradiction
  | unclosed => contradiction

/-- Only quotes are lost between the quotes of a fragment. -/
theorem Quoted.foreign_of_closed {body content : Text} (closed : ofBody body = .closed content) :
    foreign content = foreign body := by
  have quote : isOwn '\'' = true := by decide
  induction body using ofBody.induct generalizing content with
  | case1 => contradiction
  | case2 rest inductionHypothesis =>
      -- One quote of two is kept, and neither of them is foreign.
      rw [ofBody] at closed
      obtain ⟨found, inner, rfl⟩ := exists_of_cons_closed closed
      have same := inductionHypothesis inner
      simpa [foreign, quote] using same
  | case3 =>
      obtain rfl := Quoted.closed.inj closed
      rfl
  | case4 next rest other =>
      rw [ofBody] at closed
      · contradiction
      · exact other
  | case5 letter rest double alone trailing inductionHypothesis =>
      rw [ofBody] at closed
      · obtain ⟨found, inner, rfl⟩ := exists_of_cons_closed closed
        have same := inductionHypothesis inner
        simp only [foreign] at same ⊢
        rw [List.filter_cons, List.filter_cons, same]
      · exact double
      · exact alone
      · exact trailing

theorem isOwn_of_isNumberLetter {letter : Char} (number : isNumberLetter letter) :
    isOwn letter = true := by
  rw [isNumberLetter, Bool.or_eq_true] at number
  rcases number with sign | digit
  · have each : ∀ other ∈ ['-', '+', 'h', 'H'], isOwn other = true := by decide
    exact each letter (by simpa using sign)
  · exact Text.isOwn_of_hexValue? digit

theorem foreign_of_number? {word : Text} {value : UInt64} (read : number? word = some value) :
    foreign word = [] :=
  foreign_eq_nil.2 fun letter member =>
    isOwn_of_isNumberLetter (isNumberLetter_of_number? read letter member)

/-- A word of a string gives its letters, up to its quotes and escapes. -/
theorem foreign_of_stringPieces {word : Text} {pieces : List Piece}
    (read : stringPieces word = .ok pieces) :
    foreign (pieces.flatMap Piece.source) = foreign word := by
  unfold stringPieces at read
  split at read
  · rename_i body
    split at read
    · rename_i content closed
      obtain rfl := Except.ok.inj read
      have letters : (content.map Piece.quoted).flatMap Piece.source = content := by
        rw [List.flatMap_map]
        exact List.flatMap_singleton' content
      rw [letters, Quoted.foreign_of_closed closed]
      rfl
    · contradiction
    · contradiction
  · split at read
    · contradiction
    · rename_i value number
      split at read
      · obtain rfl := Except.ok.inj read
        rw [foreign_of_number? (readNumber_eq_ok_iff.1 number)]
        rfl
      · contradiction

theorem foreign_of_stringStatement {operands : List Text} {statement : Statement}
    (made : stringStatement operands = .ok statement) (symbolPrefix : Text) :
    foreign (statement.source symbolPrefix) = foreign operands.flatten := by
  unfold stringStatement at made
  split at made
  · obtain ⟨pieces, read, rfl⟩ := Results.map_eq_ok_iff.1 made
    simp [Statement.source, foreign_of_stringPieces read, show foreign ['0'] = [] from rfl]
  · rename_i several
    obtain ⟨pieces, read, rfl⟩ := Results.map_eq_ok_iff.1 made
    rw [Results.mapM_eq_ok_iff] at read
    rw [Statement.source]
    clear made several
    induction read with
    | nil => rfl
    | cons first _ inductionHypothesis =>
        rw [List.flatten_cons, List.flatMap_append, foreign_append, foreign_of_stringPieces first,
          inductionHypothesis, List.flatten_cons, foreign_append]

/-- The name that an operand refers to. -/
def Operand.name? : Operand → Option Text
  | .label name => some name
  | .unset | .number _ => none

theorem Operand.name?_ofWord {width : Width} {word name : Text}
    (named : (ofWord width word).name? = some name) : name = word := by
  unfold ofWord at named
  split at named
  · contradiction
  · split at named
    · exact (Option.some.inj named).symm
    · contradiction

/-- A name is a word of its list. -/
theorem Operand.mem_of_name? {width : Width} {words : List Text} {name : Text}
    (member : name ∈ (ofWords width words).filterMap Operand.name?) : name ∈ words := by
  induction words using ofWords.induct with
  | case1 => contradiction
  | case2 word =>
      obtain ⟨operand, listed, named⟩ := List.mem_filterMap.1 member
      obtain rfl := List.mem_singleton.1 listed
      rw [name?_ofWord named]
      exact List.mem_cons_self ..
  | case3 next rest inductionHypothesis =>
      rw [ofWords, if_pos rfl] at member
      obtain ⟨operand, listed, named⟩ := List.mem_filterMap.1 member
      rcases List.mem_cons.1 listed with rfl | listed
      · obtain rfl := Option.some.inj named
        exact List.mem_cons_of_mem _ (List.mem_cons_self ..)
      · have later := inductionHypothesis (List.mem_filterMap.2 ⟨_, listed, named⟩)
        exact List.mem_cons_of_mem _ (List.mem_cons_of_mem _ later)
  | case4 word next rest plain inductionHypothesis =>
      rw [ofWords, if_neg plain] at member
      obtain ⟨operand, listed, named⟩ := List.mem_filterMap.1 member
      rcases List.mem_cons.1 listed with rfl | listed
      · rw [name?_ofWord named]
        exact List.mem_cons_self ..
      · exact List.mem_cons_of_mem _ (inductionHypothesis (List.mem_filterMap.2 ⟨_, listed, named⟩))

/-- A declaration is a directive between a label, if there is one, and the operands. -/
theorem Entry.words_of_declaration {words : List Text} {declaration : Declaration}
    (entry : Entry.ofWords words = .declaration declaration) :
    ∃ directive, Width.ofDirective? directive = some declaration.width ∧
      words = declaration.label.toList ++ directive :: declaration.operands := by
  unfold Entry.ofWords at entry
  split at entry
  · contradiction
  · split at entry <;> contradiction
  · rename_i first second rest
    split at entry
    · contradiction
    · split at entry
      · contradiction
      · split at entry
        · contradiction
        · unfold Entry.ofDeclaration at entry
          split at entry
          · rename_i width known
            obtain rfl := Entry.declaration.inj entry
            exact ⟨first, known, rfl⟩
          · split at entry
            · rename_i width known
              obtain rfl := Entry.declaration.inj entry
              exact ⟨second, known, rfl⟩
            · contradiction

/-- A declaration consists of words of its line. -/
theorem Entry.subset_of_declaration {words : List Text} {declaration : Declaration}
    (entry : Entry.ofWords words = .declaration declaration) :
    declaration.label.toList ++ declaration.operands ⊆ words := by
  obtain ⟨directive, _, rfl⟩ := Entry.words_of_declaration entry
  intro word listed
  rcases List.mem_append.1 listed with label | operand
  · exact List.mem_append_left _ label
  · exact List.mem_append_right _ (List.mem_cons_of_mem _ operand)

end Listing

namespace Environment

variable (environment : Environment)

/-- The texts that the statement of a form takes over: the words of a string, a number with a point,
and the symbols of a list. -/
def shown : Form → List Text
  | .string operands => operands
  | .float _ literal => [literal]
  | .list operands =>
      ((operands.filterMap Operand.name?).filter fun name => !environment.suppresses name).map
        (environment.settings.symbolPrefix ++ ·)
  | .repeated _ _ | .packed _ => []

/-- The words that the comment of a form keeps: a packed literal, and the suppressed names of a
list. -/
def noted : Form → List Text
  | .packed word => [word]
  | .list operands => (operands.filterMap Operand.name?).filter environment.suppresses
  | .string _ | .repeated _ _ | .float _ _ => []

/-- The texts of a declaration in the order in which its line of output has them. -/
def carried (label : Option Text) (form : Form) : Text :=
  labelSource environment.settings.symbolPrefix label ++ (environment.shown form).flatten ++
    (environment.noted form).flatten

variable {environment}

theorem written_list {width : Width} {operands : List Operand} {written : List (Item × List Text)}
    (each : List.Forall₂ (environment.Writes width) operands written) :
    written.flatMap Prod.snd = environment.noted (.list operands) ∧
      (written.map Prod.fst).flatMap (Item.source environment.settings.symbolPrefix) =
        (environment.shown (.list operands)).flatten := by
  induction each with
  | nil => exact ⟨rfl, rfl⟩
  | cons first _ inductionHypothesis =>
      obtain ⟨comments, items⟩ := inductionHypothesis
      rw [noted] at comments ⊢
      rw [shown] at items ⊢
      rw [List.flatMap_cons, List.map_cons, List.flatMap_cons, comments, items]
      cases first with
      | suppressed suppressed =>
          simp [Operand.name?, Item.source, suppresses_iff.2 suppressed]
      | external exported admitted =>
          have shown : environment.suppresses _ = false :=
            Bool.eq_false_iff.2 fun suppressed => exported (suppresses_iff.1 suppressed)
          simp [Operand.name?, Item.source, shown]
      | unset => exact ⟨rfl, rfl⟩
      | number read => exact ⟨rfl, rfl⟩

/-- A statement takes over what its form shows, and leaves to the comment what is noted. -/
theorem statement_carries {width : Width} {form : Form} {converted : Statement × List Text}
    (made : environment.statement width form = .ok converted) :
    converted.2 = environment.noted form ∧
      foreign (converted.1.source environment.settings.symbolPrefix) =
        foreign (environment.shown form).flatten := by
  cases form with
  | string operands =>
      obtain ⟨statement, found, rfl⟩ := Results.map_eq_ok_iff.1 made
      exact ⟨rfl, foreign_of_stringStatement found _⟩
  | repeated count word =>
      obtain ⟨statement, found, rfl⟩ := Results.map_eq_ok_iff.1 made
      obtain ⟨number, value, _, _, rfl⟩ := fillStatement_eq_ok_iff.1 found
      exact ⟨rfl, rfl⟩
  | packed word =>
      obtain rfl := Except.ok.inj made
      exact ⟨rfl, rfl⟩
  | float format literal =>
      obtain rfl := Except.ok.inj made
      simp [noted, shown, Statement.source]
  | list operands =>
      obtain ⟨written, each, rfl⟩ := statement_list_eq_ok_iff.1 made
      obtain ⟨comments, items⟩ := written_list each
      exact ⟨comments, congrArg foreign items⟩

/-- The line of a declaration has the texts that it carries, in order, among its own letters. -/
theorem declarationLine_carries {declaration : Declaration} {line : Line}
    (converted : environment.declarationLine declaration = .ok line) :
    ∃ form, Form.ofOperands declaration.width declaration.operands = .ok form ∧
      line.comments = environment.noted form ∧
      foreign (line.render environment.settings.symbolPrefix) =
        foreign (environment.carried declaration.label form) := by
  unfold declarationLine at converted
  split at converted
  · contradiction
  · rename_i form found
    obtain ⟨made, read, rfl⟩ := Results.map_eq_ok_iff.1 converted
    obtain ⟨comments, statement⟩ := statement_carries read
    refine ⟨form, found, comments, ?_⟩
    rw [Line.foreign_render, Line.source, carried, comments]
    simp only [foreign_append, statement]

/-- What a form shows or notes are operands, and the prefix of symbols. -/
theorem mem_of_mem_shown {width : Width} {operands : List Text} {form : Form} {letter : Char}
    (found : Form.ofOperands width operands = .ok form)
    (member : letter ∈ (environment.shown form).flatten ++ (environment.noted form).flatten) :
    letter ∈ environment.settings.symbolPrefix ∨ ∃ word ∈ operands, letter ∈ word := by
  obtain ⟨text, listed, inside⟩ : ∃ text ∈ environment.shown form ++ environment.noted form,
      letter ∈ text := by
    rw [← List.flatten_append] at member
    exact List.mem_flatten.1 member
  cases (Form.ofOperands_eq_ok_iff.1 found).2 with
  | string =>
      rw [shown, noted, List.append_nil] at listed
      exact .inr ⟨text, listed, inside⟩
  | repeated => contradiction
  | packed | float => exact .inr ⟨text, listed, inside⟩
  | list =>
      rw [shown, noted] at listed
      rcases List.mem_append.1 listed with listed | listed
      · obtain ⟨name, kept, rfl⟩ := List.mem_map.1 listed
        rcases List.mem_append.1 inside with inside | inside
        · exact .inl inside
        · exact .inr ⟨name, Operand.mem_of_name? (List.mem_filter.1 kept).1, inside⟩
      · exact .inr ⟨text, Operand.mem_of_name? (List.mem_filter.1 listed).1, inside⟩

/-- What a declaration carries stands in its line, or in the prefix of symbols. -/
theorem mem_of_mem_carried {line : Text} {declaration : Declaration} {form : Form} {letter : Char}
    (entry : Entry.ofWords (keptWords line) = .declaration declaration)
    (found : Form.ofOperands declaration.width declaration.operands = .ok form)
    (member : letter ∈ environment.carried declaration.label form) :
    letter ∈ environment.settings.symbolPrefix ∨ letter ∈ line := by
  have taken : ∀ word ∈ declaration.label.toList ++ declaration.operands, word.Sublist line :=
    fun word listed => sublist_of_mem_keptWords (Entry.subset_of_declaration entry listed)
  rw [carried, List.append_assoc] at member
  rcases List.mem_append.1 member with inside | inside
  · cases named : declaration.label with
    | none =>
        rw [named] at inside
        contradiction
    | some name =>
        rw [named] at inside
        rcases List.mem_append.1 inside with inside | inside
        · exact .inl inside
        · exact .inr ((taken name (by simp [named])).subset inside)
  · rcases mem_of_mem_shown found inside with inside | ⟨word, listed, inside⟩
    · exact .inl inside
    · exact .inr ((taken word (List.mem_append_right _ listed)).subset inside)

/-- A line inside of a segment adds a line of data to the output, or nothing. -/
theorem output_readInside (line : Text) :
    (environment.readInside line).output = [] ∨
      (∃ value, (environment.readInside line).output = [.data ⟨none, .align value, []⟩]) ∨
      ∃ declaration data, Entry.ofWords (keptWords line) = .declaration declaration ∧
        environment.declarationLine declaration = .ok data ∧
        (environment.readInside line).output = [.data data] := by
  have result : (environment.readInside line).result =
      environment.readEntry (Entry.ofWords (keptWords line)) := rfl
  rw [Reading.output, result]
  cases entry : Entry.ofWords (keptWords line) with
  | closing | ignored | unknownLine | unknownDeclaration => exact .inl rfl
  | align boundary =>
      rw [readEntry]
      cases readNumber boundary with
      | error cause => exact .inl rfl
      | ok value => exact .inr (.inl ⟨value, rfl⟩)
  | declaration declaration =>
      rw [readEntry]
      cases converted : environment.declarationLine declaration with
      | error cause => exact .inl rfl
      | ok data => exact .inr (.inr ⟨declaration, data, rfl, converted, rfl⟩)

/-- A line of output has its own letters, those of the prefix and those of its source line. -/
theorem mem_of_mem_render {line : Text} {data : Line} {letter : Char}
    (read : .data data ∈ (environment.readInside line).output)
    (member : letter ∈ data.render environment.settings.symbolPrefix) :
    isOwn letter = true ∨ letter ∈ environment.settings.symbolPrefix ∨ letter ∈ line := by
  cases own : isOwn letter with
  | true => exact .inl rfl
  | false =>
      right
      have taken : letter ∈ foreign (data.render environment.settings.symbolPrefix) :=
        mem_foreign.2 ⟨member, own⟩
      rcases environment.output_readInside line with
        none | ⟨value, aligned⟩ | ⟨declaration, made, entry, converted, printed⟩
      · rw [none] at read
        contradiction
      · rw [aligned] at read
        obtain rfl : data = ⟨none, .align value, []⟩ := by simpa using read
        rw [Line.foreign_render] at taken
        contradiction
      · rw [printed] at read
        obtain rfl : data = made := by simpa using read
        obtain ⟨form, found, _, carried⟩ := declarationLine_carries converted
        rw [carried] at taken
        exact mem_of_mem_carried entry found (mem_foreign.1 taken).1

end Environment

end DataSegment
