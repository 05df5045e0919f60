import DataSegment.Text.Latin
import DataSegment.Proofs.Files.Places
import DataSegment.Proofs.Header.Concatenation

namespace DataSegment.Header

open Text

/-- The path of a file that another one includes. -/
def includePath (file target : Text) : Text := Files.join (Files.parent file) target

/-- What the events of a file come to when the files that it includes are expanded in place: the
prototypes that are declared in order, and the error that ends the work, if there is one. The depth
counts the inclusions that lead to the file. -/
inductive Expansion (read : Text → Option (List UInt8)) :
    Nat → Text → List Event → List Prototype → Option Error → Prop where
  | done {depth : Nat} {file : Text} : Expansion read depth file [] [] none
  | declared {depth line : Nat} {file text : Text} {found : Option Prototype} {rest : List Event}
      {later : List Prototype} {stop : Option Error}
      (declares : prototype? (withoutSpecifiers text) = .ok found)
      (goes : Expansion read depth file rest later stop) :
      Expansion read depth file (.statement line text :: rest) (found.toList ++ later) stop
  | refused {depth line : Nat} {file text : Text} {fault : Fault} {rest : List Event}
      (refuses : prototype? (withoutSpecifiers text) = .error fault) :
      Expansion read depth file (.statement line text :: rest) [] (some (fault.locate file line))
  | tooDeep {depth line : Nat} {file target : Text} {rest : List Event}
      (deep : Database.depthLimit ≤ depth) :
      Expansion read depth file (.inclusion line target :: rest) []
        (some (.includeDepth file line target))
  | unreadable {depth line : Nat} {file target : Text} {rest : List Event}
      (shallow : depth < Database.depthLimit) (missing : read (includePath file target) = none) :
      Expansion read depth file (.inclusion line target :: rest) []
        (some (.unreadable (includePath file target)))
  | stopped {depth line : Nat} {file target : Text} {bytes : List UInt8} {rest : List Event}
      {inner : List Prototype} {error : Error} (shallow : depth < Database.depthLimit)
      (found : read (includePath file target) = some bytes)
      (stops : Expansion read (depth + 1) (includePath file target)
        (events (Unicode.decode bytes)) inner (some error)) :
      Expansion read depth file (.inclusion line target :: rest) inner (some error)
  | followed {depth line : Nat} {file target : Text} {bytes : List UInt8} {rest : List Event}
      {inner later : List Prototype} {stop : Option Error} (shallow : depth < Database.depthLimit)
      (found : read (includePath file target) = some bytes)
      (ends : Expansion read (depth + 1) (includePath file target)
        (events (Unicode.decode bytes)) inner none)
      (goes : Expansion read depth file rest later stop) :
      Expansion read depth file (.inclusion line target :: rest) (inner ++ later) stop
  | openComment {depth line : Nat} {file : Text} {rest : List Event} :
      Expansion read depth file (.openComment line :: rest) [] (some (.openComment file line))
  | openStatement {depth line : Nat} {file text : Text} {rest : List Event} :
      Expansion read depth file (.openStatement line text :: rest) []
        (some (.malformed file line text))

/-- The expansion of a file that is loaded. -/
inductive Loading (read : Text → Option (List UInt8)) :
    Text → List Prototype → Option Error → Prop where
  | unreadable {path : Text} (missing : read path = none) :
      Loading read path [] (some (.unreadable path))
  | expanded {path : Text} {bytes : List UInt8} {declared : List Prototype} {stop : Option Error}
      (found : read path = some bytes)
      (expansion : Expansion read 0 path (events (Unicode.decode bytes)) declared stop) :
      Loading read path declared stop

variable {read : Text → Option (List UInt8)}

/-- Every expansion ends, because the depth of the inclusions is bounded. -/
theorem exists_expansion (read : Text → Option (List UInt8)) (depth : Nat) (file : Text)
    (source : List Event) : ∃ declared stop, Expansion read depth file source declared stop := by
  induction remaining : Database.depthLimit - depth using Nat.strong_induction_on
    generalizing depth file source with
  | _ remaining deeper =>
      induction source with
      | nil => exact ⟨[], none, .done⟩
      | cons event rest later =>
          obtain ⟨after, stop, goes⟩ := later
          cases event with
          | statement line text =>
              cases declares : prototype? (withoutSpecifiers text) with
              | error fault => exact ⟨_, _, .refused declares⟩
              | ok found => exact ⟨_, _, .declared declares goes⟩
          | openComment line => exact ⟨_, _, .openComment⟩
          | openStatement line text => exact ⟨_, _, .openStatement⟩
          | inclusion line target =>
              by_cases shallow : depth < Database.depthLimit
              · cases found : read (includePath file target) with
                | none => exact ⟨_, _, .unreadable shallow found⟩
                | some bytes =>
                    have less : Database.depthLimit - (depth + 1) <
                        Database.depthLimit - depth := by omega
                    obtain ⟨inner, stop, expansion⟩ := deeper _ (remaining ▸ less) (depth + 1)
                      (includePath file target) (events (Unicode.decode bytes)) rfl
                    cases stop with
                    | none => exact ⟨_, _, .followed shallow found expansion goes⟩
                    | some error => exact ⟨_, _, .stopped shallow found expansion⟩
              · exact ⟨_, _, .tooDeep (Nat.le_of_not_lt shallow)⟩

theorem exists_loading (read : Text → Option (List UInt8)) (path : Text) :
    ∃ declared stop, Loading read path declared stop := by
  cases found : read path with
  | none => exact ⟨_, _, .unreadable found⟩
  | some bytes =>
      obtain ⟨declared, stop, expansion⟩ :=
        exists_expansion read 0 path (events (Unicode.decode bytes))
      exact ⟨declared, stop, .expanded found expansion⟩

namespace Database

/-- The prototypes are declared one after the other. -/
def insertAll (database : Database) (declared : List Prototype) : Database :=
  declared.foldl insert database

def ofList (declared : List Prototype) : Database := empty.insertAll declared

theorem insertAll_append (database : Database) (first second : List Prototype) :
    database.insertAll (first ++ second) = (database.insertAll first).insertAll second :=
  List.foldl_append ..

/-- An error leaves nothing of what was declared before it. -/
def concluded (database : Database) : Option Error → Except Error Database
  | none => .ok database
  | some error => .error error

/-- The last declaration of a name counts. -/
theorem lookup?_insertAll (database : Database) (declared : List Prototype) (name : Text) :
    (database.insertAll declared).lookup? name =
      (declared.reverse.find? fun prototype => prototype.name = name).or
        (database.lookup? name) := by
  induction declared generalizing database with
  | nil => rfl
  | cons prototype declared inductionHypothesis =>
      rw [insertAll, List.foldl_cons, ← insertAll, inductionHypothesis, lookup?_insert,
        List.reverse_cons, List.find?_append, Option.or_assoc]
      congr 1
      by_cases same : prototype.name = name <;> simp [same]

theorem lookup?_ofList (declared : List Prototype) (name : Text) :
    (ofList declared).lookup? name =
      declared.reverse.find? fun prototype => prototype.name = name := by
  rw [ofList, lookup?_insertAll, lookup?_empty, Option.or_none]

/-- Below the limit an included file is read one level deeper. -/
theorem followFrom_of_shallow {depth : Nat} (shallow : depth < depthLimit) (file : Text)
    (line : Nat) (target : Text) (database : Database) :
    followFrom read (depthLimit - depth) file (Files.parent file) line target database =
      match read (includePath file target) with
      | none => .error (.unreadable (includePath file target))
      | some bytes =>
          (events (Unicode.decode bytes)).foldlM (declare (includePath file target)
            (followFrom read (depthLimit - (depth + 1)) (includePath file target)
              (Files.parent (includePath file target)))) database := by
  have deeper : depthLimit - depth = depthLimit - (depth + 1) + 1 := by omega
  rw [deeper, followFrom]
  simp only [readText_eq]
  rfl

/-- What is declared is what the expansion declares. -/
theorem foldlM_of_expansion {depth : Nat} {file : Text} {source : List Event}
    {declared : List Prototype} {stop : Option Error}
    (expansion : Expansion read depth file source declared stop) (shallow : depth ≤ depthLimit)
    (database : Database) :
    source.foldlM (declare file
        (followFrom read (depthLimit - depth) file (Files.parent file))) database =
      (database.insertAll declared).concluded stop := by
  induction expansion generalizing database with
  | done => rfl
  | @declared _ _ _ _ found _ _ _ declares _ later =>
      rw [List.foldlM_cons, declare, declares]
      cases found with
      | none => exact later shallow database
      | some prototype => exact later shallow (database.insert prototype)
  | refused refuses =>
      rw [List.foldlM_cons, declare, refuses]
      rfl
  | tooDeep deep =>
      rw [List.foldlM_cons, declare, Nat.sub_eq_zero_of_le deep]
      rfl
  | unreadable below missing =>
      rw [List.foldlM_cons, declare, followFrom_of_shallow below, missing]
      rfl
  | stopped below found _ stops =>
      rw [List.foldlM_cons, declare, followFrom_of_shallow below, found]
      dsimp only
      rw [stops below]
      rfl
  | @followed _ _ _ _ _ _ inner later _ below found _ _ ends goes =>
      rw [List.foldlM_cons, declare, followFrom_of_shallow below, found]
      dsimp only
      rw [ends below, insertAll_append]
      exact goes shallow (database.insertAll inner)
  | openComment => rfl
  | openStatement => rfl

/-- What is loaded is what the expansion declares. -/
theorem load_of_loading {path : Text} {declared : List Prototype} {stop : Option Error}
    (loading : Loading read path declared stop) :
    load read path = (ofList declared).concluded stop := by
  cases loading with
  | unreadable missing =>
      rw [load, missing]
      rfl
  | expanded found expansion =>
      rw [load, found]
      dsimp only
      rw [readText_eq]
      exact foldlM_of_expansion expansion (Nat.zero_le _) empty

/-- A database is loaded by an expansion that nothing ends early. -/
theorem exists_loading_of_load {path : Text} {database : Database}
    (loaded : load read path = .ok database) :
    ∃ declared, Loading read path declared none ∧ database = ofList declared := by
  obtain ⟨declared, stop, loading⟩ := exists_loading read path
  rw [load_of_loading loading] at loaded
  cases stop with
  | none => exact ⟨declared, loading, (Except.ok.inj loaded).symm⟩
  | some error => contradiction

end Database

/-- A file includes another one when one of its lines does. -/
def Includes (read : Text → Option (List UInt8)) (file next : Text) : Prop :=
  ∃ bytes line target, read file = some bytes ∧
    .inclusion line target ∈ events (Unicode.decode bytes) ∧ next = includePath file target

/-- A number of inclusions lead from one file to another. -/
inductive Nested (read : Text → Option (List UInt8)) : Nat → Text → Text → Prop where
  | here {file : Text} : Nested read 0 file file
  | step {count : Nat} {file middle last : Text} (first : Includes read file middle)
      (later : Nested read count middle last) : Nested read (count + 1) file last

theorem Nested.append {count other : Nat} {file middle last : Text}
    (first : Nested read count file middle) (second : Nested read other middle last) :
    Nested read (count + other) file last := by
  induction first with
  | here => simpa using second
  | step includes _ inductionHypothesis =>
      rw [Nat.add_right_comm]
      exact .step includes (inductionHypothesis second)

/-- An expansion that nothing ends early follows every inclusion, none of them too deep. -/
theorem depth_le_of_expansion {depth : Nat} {file : Text} {source : List Event}
    {declared : List Prototype} {stop : Option Error}
    (expansion : Expansion read depth file source declared stop) (complete : stop = none)
    {line : Nat} {target : Text} (member : .inclusion line target ∈ source) {count : Nat}
    {last : Text} (nested : Nested read count (includePath file target) last) :
    depth + 1 + count ≤ Database.depthLimit := by
  induction expansion generalizing line target count last with
  | done => contradiction
  | declared _ _ later =>
      rcases List.mem_cons.1 member with same | member
      · contradiction
      · exact later complete member nested
  | refused | tooDeep | unreadable | stopped | openComment | openStatement => contradiction
  | followed below found _ _ ends goes =>
      rcases List.mem_cons.1 member with same | member
      · obtain ⟨rfl, rfl⟩ := Event.inclusion.inj same
        cases nested with
        | here => exact below
        | step first later =>
            obtain ⟨bytes, line, target, readable, member, rfl⟩ := first
            obtain rfl := Option.some.inj (found.symm.trans readable)
            have bound := ends rfl member later
            omega
      · exact goes complete member nested

/-- No chain of inclusions from a file that is loaded is too long. -/
theorem count_le_of_loading {path last : Text} {declared : List Prototype} {count : Nat}
    (loading : Loading read path declared none) (nested : Nested read count path last) :
    count ≤ Database.depthLimit := by
  cases nested with
  | here => exact Nat.zero_le _
  | step first later =>
      obtain ⟨bytes, line, target, readable, member, rfl⟩ := first
      cases loading with
      | expanded found expansion =>
          obtain rfl := Option.some.inj (found.symm.trans readable)
          have bound := depth_le_of_expansion expansion rfl member later
          omega

/-- Paths are alike when they lead to the same contents, and when their inclusions do so again. -/
structure Alike (read : Text → Option (List UInt8)) (alike : Text → Text → Prop) : Prop where
  trans : ∀ {first second third}, alike first second → alike second third → alike first third
  read_eq : ∀ {first second}, alike first second → read first = read second
  includes : ∀ {first second} (target), alike first second →
    read (includePath first target) ≠ none →
    alike (includePath first target) (includePath second target)

theorem alike_eq (read : Text → Option (List UInt8)) : Alike read Eq where
  trans := Eq.trans
  read_eq same := congrArg read same
  includes target same _ := congrArg (includePath · target) same

theorem alike_sameFile (tree : Files.Tree) : Alike tree.read? tree.SameFile where
  trans := Files.Tree.SameFile.trans
  read_eq := Files.Tree.SameFile.read?_eq
  includes _ := Files.Tree.SameFile.join_parent

variable {alike : Text → Text → Prop}

theorem Nested.readable {count : Nat} {file last : Text} (nested : Nested read count file last)
    (found : read last ≠ none) : read file ≠ none := by
  cases nested with
  | here => exact found
  | step first _ =>
      obtain ⟨_, _, _, readable, _⟩ := first
      simp [readable]

/-- A chain of inclusions starts again from a path that is alike. -/
theorem Nested.transport (like : Alike read alike) {count : Nat} {file other last : Text}
    (nested : Nested read count file last) (found : read last ≠ none) (same : alike file other) :
    ∃ twin, Nested read count other twin ∧ alike last twin := by
  induction nested generalizing other with
  | here => exact ⟨other, .here, same⟩
  | step first later inductionHypothesis =>
      have readable := later.readable found
      obtain ⟨bytes, line, target, held, member, rfl⟩ := first
      obtain ⟨twin, nested, next⟩ :=
        inductionHypothesis found (like.includes target same readable)
      exact ⟨twin, .step ⟨bytes, line, target, like.read_eq same ▸ held, member, rfl⟩ nested, next⟩

/-- A cycle of inclusions can be followed any number of times. -/
theorem exists_nested_of_cycle (like : Alike read alike) {count : Nat} {file last : Text}
    (cycle : Nested read count file last) (found : read last ≠ none) (same : alike file last)
    (rounds : Nat) : ∃ final, Nested read (count * (rounds + 1)) file final ∧ alike file final := by
  induction rounds with
  | zero => exact ⟨last, by simpa using cycle, same⟩
  | succ rounds inductionHypothesis =>
      obtain ⟨final, nested, reached⟩ := inductionHypothesis
      obtain ⟨twin, again, next⟩ := cycle.transport like found reached
      exact ⟨twin, nested.append again, like.trans same next⟩

/-- A cycle that is reached from a file makes a chain of inclusions that is too long. -/
theorem exists_nested_gt_of_cycle (like : Alike read alike) {start count : Nat}
    {path file last : Text} (reached : Nested read start path file)
    (cycle : Nested read (count + 1) file last) (found : read last ≠ none)
    (same : alike file last) :
    ∃ length final, Database.depthLimit < length ∧ Nested read length path final := by
  obtain ⟨final, nested, _⟩ := exists_nested_of_cycle like cycle found same Database.depthLimit
  refine ⟨_, final, ?_, reached.append nested⟩
  have bound : Database.depthLimit + 1 ≤ (count + 1) * (Database.depthLimit + 1) :=
    Nat.le_mul_of_pos_left _ (Nat.succ_pos count)
  omega

/-- A chain of inclusions that is too long makes the loading fail. -/
theorem Database.load_of_nested {path last : Text} {count : Nat}
    (nested : Nested read count path last) (long : Database.depthLimit < count) :
    ∃ error, Database.load read path = .error error := by
  cases loaded : Database.load read path with
  | error error => exact ⟨error, rfl⟩
  | ok database =>
      obtain ⟨declared, loading, _⟩ := Database.exists_loading_of_load loaded
      have bound := count_le_of_loading loading nested
      omega

/-- A file that includes itself is not loaded. -/
example :
    (match Database.load (fun _ => some (Latin.encode "#include \"a\"\n".toList)) ['a'] with
      | .error error => some error
      | .ok _ => none) = some (.includeDepth ['a'] 1 ['a']) := by
  decide +kernel

/-- A header is loaded by an expansion that ends, and the result is what the expansion declares.
The last declaration of a name counts. No inclusion is deeper than sixteen. A longer chain of
inclusions and a cycle of them, be it of paths or of files, make the loading fail. -/
theorem Database.load_expansion (read : Text → Option (List UInt8)) (path : Text) :
    (∃ declared stop, Loading read path declared stop) ∧
    (∀ declared stop, Loading read path declared stop →
      Database.load read path = (Database.ofList declared).concluded stop) ∧
    (∀ database, Database.load read path = .ok database →
      ∃ declared, Loading read path declared none ∧ database = Database.ofList declared ∧
        (∀ name, database.lookup? name =
          declared.reverse.find? fun prototype => prototype.name = name) ∧
        ∀ count last, Nested read count path last → count ≤ 16) ∧
    (∀ count last, Nested read count path last → 16 < count →
      ∃ error, Database.load read path = .error error) ∧
    (∀ start count first last, Nested read start path first →
      Nested read (count + 1) first last →
      (first = last ∨ ∃ tree : Files.Tree, read = tree.read? ∧
        tree.place? first = tree.place? last) →
      ∃ error, Database.load read path = .error error) := by
  refine ⟨exists_loading read path, ?_, ?_, ?_, ?_⟩
  · intro declared stop loading
    exact Database.load_of_loading loading
  · intro database loaded
    obtain ⟨declared, loading, rfl⟩ := Database.exists_loading_of_load loaded
    refine ⟨declared, loading, rfl, Database.lookup?_ofList declared, ?_⟩
    intro count last nested
    exact count_le_of_loading loading nested
  · intro count last nested long
    exact Database.load_of_nested nested long
  · intro start count first last reached cycle same
    have held : read first ≠ none := by
      cases cycle with
      | step includes _ =>
          obtain ⟨bytes, _, _, readable, _⟩ := includes
          simp [readable]
    rcases same with rfl | ⟨tree, rfl, same⟩
    · obtain ⟨length, final, long, nested⟩ :=
        exists_nested_gt_of_cycle (alike_eq read) reached cycle held rfl
      exact Database.load_of_nested nested long
    · have alike := Files.Tree.sameFile_of_place? same held
      obtain ⟨length, final, long, nested⟩ := exists_nested_gt_of_cycle (alike_sameFile tree)
        reached cycle (alike.read?_eq ▸ held) alike
      exact Database.load_of_nested nested long

end DataSegment.Header
