import DataSegment.Header.Database
import DataSegment.Proofs.Header.Sequence
import DataSegment.Proofs.Results
import Mathlib.Data.Finset.Card

namespace DataSegment.Header

open Text

namespace Database

variable {base former latter whole : Database} {name : Text}

/-- The names that a database declares. -/
def declared (database : Database) : Finset Text := database.entries.keys.toFinset

theorem mem_declared {database : Database} :
    name ∈ database.declared ↔ (database.lookup? name).isSome = true := by
  simp [declared, lookup?]

theorem size_eq_card (database : Database) : database.size = database.declared.card := by
  rw [declared, List.toFinset_card_of_nodup database.entries.nodup_keys, size,
    Std.TreeMap.length_keys]

/-- The whole has what the latter database has, and what the base has besides. -/
def Overlays (base latter whole : Database) : Prop :=
  ∀ name, whole.lookup? name = (latter.lookup? name).or (base.lookup? name)

theorem Overlays.insert (overlays : Overlays base latter whole) (prototype : Prototype) :
    Overlays base (latter.insert prototype) (whole.insert prototype) := by
  intro name
  rw [lookup?_insert, lookup?_insert, overlays name]
  split <;> rfl

theorem lookup?_empty (name : Text) : empty.lookup? name = none := by
  simp [lookup?, empty]

/-- A database with no declarations adds nothing to a base. -/
theorem overlays_empty (base : Database) : Overlays base empty base := by
  intro name
  rw [lookup?_empty, Option.none_or]

theorem Overlays.declared_eq (overlays : Overlays former latter whole) :
    whole.declared = former.declared ∪ latter.declared := by
  ext name
  rw [Finset.mem_union, mem_declared, mem_declared, mem_declared, overlays name, Option.isSome_or,
    Bool.or_eq_true, or_comm]

/-- What happens to an included file. -/
abbrev Follow := Nat → Text → Database → Except Error Database

/-- An included file declares the same over a base, wherever its inclusion stands. -/
def FollowsOver (base : Database) (follow other : Follow) : Prop :=
  ∀ line number target latter found whole, follow line target latter = .ok found →
    Overlays base latter whole →
    ∃ result, other number target whole = .ok result ∧ Overlays base found result

variable {follow other : Follow} {file : Text} {found : Database}

/-- An event declares the same over a base, wherever it stands. -/
theorem declare_overlays (path : Text) (follows : FollowsOver base follow other)
    {event same : Event} (alike : event.unplaced = same.unplaced)
    (declared : declare file follow latter event = .ok found)
    (overlays : Overlays base latter whole) :
    ∃ result, declare path other whole same = .ok result ∧ Overlays base found result := by
  cases event with
  | statement line text =>
      cases same with
      | statement number second =>
          obtain rfl : text = second := by simpa [Event.unplaced] using alike
          unfold declare at declared ⊢
          dsimp only at declared ⊢
          split at declared
          · contradiction
          · obtain rfl := Except.ok.inj declared
            exact ⟨whole, rfl, overlays⟩
          · obtain rfl := Except.ok.inj declared
            exact ⟨_, rfl, overlays.insert _⟩
      | inclusion | openComment | openStatement => simp [Event.unplaced] at alike
  | inclusion line target =>
      cases same with
      | inclusion number second =>
          obtain rfl : target = second := by simpa [Event.unplaced] using alike
          exact follows line number target latter found whole declared overlays
      | statement | openComment | openStatement => simp [Event.unplaced] at alike
  | openComment line => contradiction
  | openStatement line text => contradiction

/-- Events declare the same over a base, wherever they stand. -/
theorem foldlM_declare_overlays (path : Text) (follows : FollowsOver base follow other)
    {events others : List Event} (alike : events.map Event.unplaced = others.map Event.unplaced)
    (declared : events.foldlM (declare file follow) latter = .ok found)
    (overlays : Overlays base latter whole) :
    ∃ result, others.foldlM (declare path other) whole = .ok result ∧
      Overlays base found result := by
  induction events generalizing others latter whole with
  | nil =>
      obtain rfl : others = [] := by simpa using alike.symm
      obtain rfl := Except.ok.inj declared
      exact ⟨whole, rfl, overlays⟩
  | cons event events inductionHypothesis =>
      obtain _ | ⟨same, others⟩ := others
      · simp at alike
      · obtain ⟨first, rest⟩ := List.cons.inj alike
        rw [List.foldlM_cons, Results.bind_eq_ok_iff] at declared
        obtain ⟨next, step, later⟩ := declared
        obtain ⟨middle, stepped, kept⟩ := declare_overlays path follows first step overlays
        obtain ⟨result, run, final⟩ := inductionHypothesis rest later kept
        refine ⟨result, ?_, final⟩
        rw [List.foldlM_cons, Results.bind_eq_ok_iff]
        exact ⟨middle, stepped, run⟩

variable {read : Text → Option (List UInt8)} {allowed : Nat} {directory source : Text}

/-- How a text follows the files that it includes. -/
def followFrom (read : Text → Option (List UInt8)) (allowed : Nat) (file directory : Text) :
    Follow :=
  match allowed with
  | 0 => fun line target _ => .error (.includeDepth file line target)
  | allowed + 1 => fun _ target database =>
      match read (Files.join directory target) with
      | none => .error (.unreadable (Files.join directory target))
      | some bytes =>
          readText read allowed (Files.join directory target)
            (Files.parent (Files.join directory target)) (Unicode.decode bytes) database

theorem readText_eq (database : Database) :
    readText read allowed file directory source database =
      (events source).foldlM (declare file (followFrom read allowed file directory)) database := by
  cases allowed <;> rfl

/-- An included file declares the same over a base. -/
theorem followsOver_followFrom (base : Database) (allowed : Nat) (file path directory : Text) :
    FollowsOver base (followFrom read allowed file directory)
      (followFrom read allowed path directory) := by
  induction allowed generalizing file path directory with
  | zero =>
      intro _ _ _ _ _ _ followed
      contradiction
  | succ allowed inductionHypothesis =>
      intro line number target latter found whole followed overlays
      unfold followFrom at followed ⊢
      dsimp only at followed ⊢
      split at followed
      · contradiction
      · rw [readText_eq] at followed ⊢
        exact foldlM_declare_overlays _ (inductionHypothesis _ _ _) rfl followed overlays

/-- A text that is read has an end that leaves nothing open. -/
theorem finish_of_readText {database : Database}
    (readable : readText read allowed file directory source database = .ok found) :
    (Scan.final source).finish = [] := by
  rw [readText_eq] at readable
  change ((Scan.initial.readLines 1 (lines source)).1 ++ (Scan.final source).finish).foldlM _ _ = _
    at readable
  rw [List.foldlM_append, Results.bind_eq_ok_iff] at readable
  obtain ⟨middle, _, last⟩ := readable
  unfold Scan.finish at last ⊢
  split
  · rename_i inside
    rw [if_pos inside] at last
    contradiction
  · rename_i outside
    rw [if_neg outside] at last
    split
    · rfl
    · rename_i filled
      rw [if_neg filled] at last
      contradiction

/-- Over a database with no declarations the whole is the latter database. -/
theorem Overlays.lookup?_eq (overlays : Overlays empty latter whole) (name : Text) :
    whole.lookup? name = latter.lookup? name := by
  rw [overlays name, lookup?_empty, Option.or_none]

/-- Two texts that declare something declare it together, one behind the other. -/
theorem exists_ofText_append {other : Text} {first second : Text}
    (earlier : ofText read file first = .ok former)
    (later : ofText read other second = .ok latter) (path : Text) :
    ∃ whole, ofText read path (first ++ '\n' :: second) = .ok whole ∧
      Overlays former latter whole := by
  have complete := finish_of_readText earlier
  rw [ofText, readText_eq] at earlier later
  have follows {base : Database} (file : Text) :
      FollowsOver base (followFrom read depthLimit file ['.'])
        (followFrom read depthLimit path ['.']) :=
    followsOver_followFrom base depthLimit file path ['.']
  obtain ⟨middle, begun, kept⟩ :=
    foldlM_declare_overlays path (follows file) rfl earlier (overlays_empty empty)
  obtain ⟨joined, ended, placed⟩ :=
    foldlM_declare_overlays path (follows other) rfl later (overlays_empty middle)
  have together : (events first ++ events second).foldlM
      (declare path (followFrom read depthLimit path ['.'])) empty = .ok joined := by
    rw [List.foldlM_append, Results.bind_eq_ok_iff]
    exact ⟨middle, begun, ended⟩
  obtain ⟨whole, declared, same⟩ := foldlM_declare_overlays path (follows path)
    (events_append complete second).symm together (overlays_empty empty)
  refine ⟨whole, ?_, fun name => ?_⟩
  · rw [ofText, readText_eq]
    exact declared
  · rw [same.lookup?_eq, placed name, kept.lookup?_eq]

end Database

/-- Header texts that declare something can be put one behind the other. Then a name has its later
declaration, and every name counts once. Nothing is left open at the end of such a text. -/
theorem Database.ofText_append {read : Text → Option (List UInt8)} {file other : Text}
    {first second : Text} {former latter : Database}
    (earlier : Database.ofText read file first = .ok former)
    (later : Database.ofText read other second = .ok latter) (path : Text) :
    (∃ whole, Database.ofText read path (first ++ '\n' :: second) = .ok whole ∧
      (∀ name, whole.lookup? name = (latter.lookup? name).or (former.lookup? name)) ∧
      whole.size = (former.declared ∪ latter.declared).card) ∧
    (Scan.final first).Neutral ∧ (Scan.final second).Neutral := by
  refine ⟨?_, ?_, ?_⟩
  · obtain ⟨whole, declared, overlays⟩ := exists_ofText_append earlier later path
    refine ⟨whole, declared, overlays, ?_⟩
    rw [size_eq_card, overlays.declared_eq]
  · exact (Scan.balanced_final first).neutral (finish_of_readText earlier)
  · exact (Scan.balanced_final second).neutral (finish_of_readText later)

/-- The second text declares one of two names again. -/
theorem Database.ofText_append_again :
    ∃ former latter whole,
      Database.ofText (fun _ => none) [] "int a; int b;".toList = .ok former ∧
      Database.ofText (fun _ => none) [] "char a;".toList = .ok latter ∧
      Database.ofText (fun _ => none) [] ("int a; int b;".toList ++ '\n' :: "char a;".toList) =
        .ok whole ∧
      whole.lookup? ['a'] = some ⟨['a'], "char".toList, .data, .cdecl, [], false⟩ ∧
      whole.lookup? ['b'] = some ⟨['b'], "int".toList, .data, .cdecl, [], false⟩ ∧
      whole.size = 2 := by
  have firstEvents : events "int a; int b;".toList =
      [.statement 1 "int a".toList, .statement 1 "int b".toList] := by decide +kernel
  have secondEvents : events "char a;".toList = [.statement 1 "char a".toList] := by
    decide +kernel
  have first : prototype? (withoutSpecifiers "int a".toList) =
      .ok (some ⟨['a'], "int".toList, .data, .cdecl, [], false⟩) := by decide +kernel
  have other : prototype? (withoutSpecifiers "int b".toList) =
      .ok (some ⟨['b'], "int".toList, .data, .cdecl, [], false⟩) := by decide +kernel
  have again : prototype? (withoutSpecifiers "char a".toList) =
      .ok (some ⟨['a'], "char".toList, .data, .cdecl, [], false⟩) := by decide +kernel
  have earlier : Database.ofText (fun _ => none) [] "int a; int b;".toList =
      .ok ((Database.empty.insert ⟨['a'], "int".toList, .data, .cdecl, [], false⟩).insert
        ⟨['b'], "int".toList, .data, .cdecl, [], false⟩) := by
    rw [Database.ofText, Database.readText_eq, firstEvents]
    simp only [List.foldlM_cons, List.foldlM_nil, Database.declare, first, other]
    rfl
  have later : Database.ofText (fun _ => none) [] "char a;".toList =
      .ok (Database.empty.insert ⟨['a'], "char".toList, .data, .cdecl, [], false⟩) := by
    rw [Database.ofText, Database.readText_eq, secondEvents]
    simp only [List.foldlM_cons, List.foldlM_nil, Database.declare, again]
    rfl
  obtain ⟨⟨whole, declared, lookup, size⟩, _⟩ := Database.ofText_append earlier later []
  refine ⟨_, _, whole, earlier, later, declared, ?_, ?_, ?_⟩
  · rw [lookup, Database.lookup?_insert, if_pos rfl]
    rfl
  · rw [lookup, Database.lookup?_insert, if_neg (by decide), Database.lookup?_insert, if_pos rfl,
      Database.lookup?_empty]
    rfl
  · rw [size]
    decide +kernel

end DataSegment.Header
