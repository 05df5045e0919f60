import DataSegment.Files.Path
import DataSegment.Files.Tree
import Mathlib.Data.List.TakeWhile

namespace DataSegment.Files

/-- The names in a path, with the empty ones. -/
def components (path : Text) : List Text := path.splitOnP (· == '/')

theorem components_append_cons (first rest : Text) :
    components (first ++ '/' :: rest) = components first ++ components rest :=
  List.splitOnP_append_cons first rest (by decide)

theorem components_of_solid {path : Text} (solid : '/' ∉ path) : components path = [path] := by
  apply List.splitOnP_eq_singleton
  intro letter member
  have different : letter ≠ '/' := fun same => solid (same ▸ member)
  simpa using different

namespace Tree

variable (tree : Tree) {place next : List Text} {path : Text}

theorem walk_append (place first second : List Text) :
    tree.walk place (first ++ second) =
      (tree.walk place first).bind fun middle => tree.walk middle second := by
  induction first generalizing place with
  | nil => rfl
  | cons name first inductionHypothesis =>
      rw [List.cons_append, walk, walk]
      split
      · split
        · exact inductionHypothesis place
        · split
          · exact inductionHypothesis _
          · split
            · exact inductionHypothesis _
            · rfl
      · rfl

/-- A step starts in a directory. It stays there, goes up or goes down. -/
theorem walk_singleton {name : Text} (step : tree.walk place [name] = some next) :
    tree.content? place = some .directory ∧
      ((name = [] ∨ name = ['.']) ∧ next = place ∨
        name = ['.', '.'] ∧ next = place.dropLast ∨
        next = place ++ [name]) := by
  rw [walk] at step
  split at step
  · rename_i directory
    refine ⟨directory, ?_⟩
    split at step
    · rename_i stays
      exact .inl ⟨stays, (Option.some.inj step).symm⟩
    · split at step
      · rename_i up
        exact .inr (.inl ⟨up, (Option.some.inj step).symm⟩)
      · split at step
        · exact .inr (.inr (Option.some.inj step).symm)
        · contradiction
  · contradiction

/-- Names that lead nowhere leave a walk where it is. -/
theorem eq_of_walk_idle {names : List Text} (idle : ∀ name ∈ names, name = [] ∨ name = ['.'])
    (walked : tree.walk place names = some next) : next = place := by
  induction names with
  | nil => exact (Option.some.inj walked).symm
  | cons name names inductionHypothesis =>
      rw [walk] at walked
      split at walked
      · rw [if_pos (idle name (List.mem_cons_self ..))] at walked
        exact inductionHypothesis (fun other member => idle other (List.mem_cons_of_mem _ member))
          walked
      · contradiction

/-- Only directories lead to a place. -/
def Rooted (place : List Text) : Prop :=
  ∀ count < place.length, tree.content? (place.take count) = some .directory

variable {tree}

theorem Rooted.step (rooted : tree.Rooted place) {name : Text}
    (step : tree.walk place [name] = some next) : tree.Rooted next := by
  obtain ⟨directory, ⟨-, rfl⟩ | ⟨-, rfl⟩ | rfl⟩ := tree.walk_singleton step
  · exact rooted
  · intro count bound
    rw [List.length_dropLast] at bound
    rw [List.dropLast_eq_take, List.take_take, Nat.min_eq_left (by omega)]
    exact rooted count (by omega)
  · intro count bound
    rw [List.length_append, List.length_singleton] at bound
    by_cases whole : count = place.length
    · subst whole
      rw [List.take_left]
      exact directory
    · rw [List.take_append_of_le_length (by omega)]
      exact rooted count (by omega)

theorem Rooted.walk (rooted : tree.Rooted place) {names : List Text}
    (walked : tree.walk place names = some next) : tree.Rooted next := by
  induction names generalizing place with
  | nil => exact Option.some.inj walked ▸ rooted
  | cons name names inductionHypothesis =>
      rw [← List.singleton_append, walk_append, Option.bind_eq_some_iff] at walked
      obtain ⟨middle, first, later⟩ := walked
      exact inductionHypothesis (rooted.step first) later

/-- A path starts where only directories lead. -/
theorem rooted_start (path : Text) :
    tree.Rooted (tree.start path) ∧ tree.content? (tree.start path) = some .directory := by
  have above {place : List Text} (leads : place <+: tree.working) :
      tree.content? place = some .directory := by
    rw [content?, if_pos (List.isPrefixOf_iff_prefix.2 leads)]
  have leads : tree.start path <+: tree.working := by
    unfold start
    split
    · exact List.nil_prefix
    · exact List.prefix_rfl
  exact ⟨fun count _ => above ((List.take_prefix ..).trans leads), above leads⟩

/-- What is above a directory is a directory, also above the root. -/
theorem Rooted.dropLast (rooted : tree.Rooted place)
    (directory : tree.content? place = some .directory) :
    tree.content? place.dropLast = some .directory := by
  cases length : place.length with
  | zero => rwa [List.length_eq_zero_iff.1 length] at directory ⊢
  | succ count =>
      rw [List.dropLast_eq_take]
      exact rooted _ (by omega)

/-- The last name in the path of a file leads down from its directory. -/
theorem walk_file {names : List Text} {last : Text} {bytes : List UInt8}
    (walked : tree.walk (tree.start path) (names ++ [last]) = some place)
    (file : tree.content? place = some (.file bytes)) :
    tree.walk (tree.start path) names = some place.dropLast := by
  rw [walk_append, Option.bind_eq_some_iff] at walked
  obtain ⟨middle, first, step⟩ := walked
  obtain ⟨directory, ⟨-, rfl⟩ | ⟨-, rfl⟩ | rfl⟩ := tree.walk_singleton step
  · simp [directory] at file
  · have rooted : tree.Rooted middle := (rooted_start path).1.walk first
    simp [rooted.dropLast directory] at file
  · rw [List.dropLast_concat]
    exact first

end Tree

/-- What is dropped off the end of a path leads nowhere. -/
theorem components_dropSeparators (reversed : Text) :
    ∃ idle : List Text, (∀ name ∈ idle, name = [] ∨ name = ['.']) ∧
      components reversed.reverse = components (dropSeparators reversed).reverse ++ idle := by
  fun_induction dropSeparators reversed with
  | case1 rest inductionHypothesis =>
      obtain ⟨idle, each, same⟩ := inductionHypothesis
      refine ⟨idle ++ [[]], ?_, ?_⟩
      · simpa [or_imp, forall_and] using each
      · rw [List.reverse_cons, components_append_cons, same, List.append_assoc]
        rfl
  | case2 rest inductionHypothesis =>
      obtain ⟨idle, each, same⟩ := inductionHypothesis
      refine ⟨idle ++ [['.']], ?_, ?_⟩
      · simpa [or_imp, forall_and] using each
      · rw [List.reverse_cons, List.reverse_cons, List.append_assoc, List.singleton_append,
          components_append_cons, same, List.append_assoc]
        rfl
  | case3 path => exact ⟨[], by simp, by simp⟩

theorem head?_dropSeparators (reversed : Text) : (dropSeparators reversed).head? ≠ some '/' := by
  fun_induction dropSeparators reversed with
  | case1 rest inductionHypothesis => exact inductionHypothesis
  | case2 rest inductionHypothesis => exact inductionHypothesis
  | case3 path open' =>
      intro same
      cases path with
      | nil => contradiction
      | cons letter rest => exact open' rest (by simpa using same)

/-- The first character of what is left stays. -/
theorem getLast?_dropSeparators {reversed : Text} (kept : dropSeparators reversed ≠ []) :
    (dropSeparators reversed).getLast? = reversed.getLast? := by
  fun_induction dropSeparators reversed with
  | case1 rest inductionHypothesis =>
      cases rest with
      | nil => exact absurd rfl kept
      | cons letter rest => simpa using inductionHypothesis kept
  | case2 rest inductionHypothesis =>
      cases rest with
      | nil => exact absurd rfl kept
      | cons letter rest => simpa using inductionHypothesis kept
  | case3 path => rfl

/-- Nothing is left only of an empty text and of one that starts with a separator. -/
theorem dropSeparators_eq_nil {reversed : Text} (empty : dropSeparators reversed = []) :
    reversed = [] ∨ reversed.getLast? = some '/' := by
  fun_induction dropSeparators reversed with
  | case1 rest inductionHypothesis =>
      rcases inductionHypothesis empty with rfl | last
      · exact .inr rfl
      · exact .inr (by rw [List.getLast?_cons, last]; rfl)
  | case2 rest inductionHypothesis =>
      rcases inductionHypothesis empty with rfl | last
      · exact .inr rfl
      · exact .inr (by rw [List.getLast?_cons, List.getLast?_cons, last]; rfl)
  | case3 path => exact .inl empty

theorem join_of_directory {directory target : Text} (filled : directory ≠ [])
    (ends : directory.getLast? ≠ some '/') (relative : target.head? ≠ some '/') :
    join directory target = directory ++ '/' :: target := by
  unfold join
  split
  · contradiction
  · rename_i empty _
    exact absurd (List.getLast?_eq_none_iff.1 empty) filled
  · contradiction
  · rw [List.append_assoc, List.singleton_append]

theorem join_root {target : Text} (relative : target.head? ≠ some '/') :
    join ['/'] target = '/' :: target := by
  unfold join
  split
  · contradiction
  · contradiction
  · rfl
  · rename_i other same _
    exact absurd (Option.some.inj same).symm other

theorem join_of_absolute {directory target : Text} (absolute : target.head? = some '/') :
    join directory target = target := by
  unfold join
  split
  · rfl
  · rfl
  · contradiction
  · contradiction

theorem join_nil (target : Text) : join [] target = target := by
  unfold join
  split
  · rfl
  · rfl
  · contradiction
  · contradiction

/-- The directory of a path is the path before its last separator, without what leads nowhere. At
the root it is the root. -/
theorem parent_append {front name : Text} (solid : '/' ∉ name) :
    parent (front ++ '/' :: name) =
      if dropSeparators front.reverse = [] ∧ (front ++ '/' :: name).head? = some '/' then ['/']
      else (dropSeparators front.reverse).reverse := by
  have cut : (front ++ '/' :: name).reverse.dropWhile (· != '/') = '/' :: front.reverse := by
    rw [List.reverse_append, List.reverse_cons, List.append_assoc, List.singleton_append,
      List.dropWhile_append_of_pos]
    · rfl
    · intro letter member
      have different : letter ≠ '/' := fun same => solid (same ▸ List.mem_reverse.1 member)
      simpa using different
  rw [parent, cut, dropSeparators]
  simp

theorem parent_of_solid {path : Text} (solid : '/' ∉ path) : parent path = [] := by
  have cut : path.reverse.dropWhile (· != '/') = [] := by
    apply List.dropWhile_eq_nil_iff.2
    intro letter member
    have different : letter ≠ '/' := fun same => solid (same ▸ List.mem_reverse.1 member)
    simpa using different
  have head : path.head? ≠ some '/' := fun same => solid (List.mem_of_mem_head? same)
  rw [parent, cut, dropSeparators]
  · simp [head]
  · simp
  · simp

namespace Tree

variable {tree : Tree} {place : List Text} {path target : Text} {bytes : List UInt8}

theorem place?_of_filled (filled : path ≠ []) :
    tree.place? path = tree.walk (tree.start path) (components path) := by
  rw [place?, if_neg (by simpa using filled)]
  rfl

theorem filled_of_place? (found : tree.place? path = some place) :
    path ≠ [] ∧ tree.walk (tree.start path) (components path) = some place := by
  have filled : path ≠ [] := by
    rintro rfl
    contradiction
  exact ⟨filled, place?_of_filled filled ▸ found⟩

theorem start_congr {other : Text} (same : path.head? = other.head?) :
    tree.start path = tree.start other := by
  rw [start, start, same]

/-- A walk from the root starts with a separator. -/
theorem place?_separator (target : Text) :
    tree.place? ('/' :: target) = tree.walk [] (components target) := by
  have root : tree.content? [] = some .directory := by
    rw [content?, if_pos (List.isPrefixOf_iff_prefix.2 List.nil_prefix)]
  have start : tree.start ('/' :: target) = [] := if_pos rfl
  have cut : components ('/' :: target) = [] :: components target :=
    components_append_cons [] target
  rw [place?_of_filled (by simp), start, cut, walk, if_pos root, if_pos (.inl rfl)]

/-- A path without its last names starts where it did, as long as something is left of it. -/
theorem start_dropSeparators {front : Text} (kept : dropSeparators front ≠ []) (name target : Text) :
    tree.start ((dropSeparators front).reverse ++ '/' :: target) =
      tree.start (front.reverse ++ '/' :: name) := by
  apply start_congr
  rw [List.head?_append, List.head?_append, List.head?_reverse, List.head?_reverse,
    getLast?_dropSeparators kept]
  cases last : front.getLast? with
  | none =>
      rw [List.getLast?_eq_none_iff.1 last] at kept
      exact absurd rfl kept
  | some letter => rfl

/-- What is left of the path of a file leads to its directory. -/
theorem walk_dropSeparators {front name : Text} (solid : '/' ∉ name)
    (found : tree.place? (front.reverse ++ '/' :: name) = some place)
    (file : tree.content? place = some (.file bytes)) :
    tree.walk (tree.start (front.reverse ++ '/' :: name))
      (components (dropSeparators front).reverse) = some place.dropLast := by
  obtain ⟨_, walked⟩ := filled_of_place? found
  obtain ⟨idle, each, same⟩ := components_dropSeparators front
  rw [components_append_cons, components_of_solid solid] at walked
  have led := walk_file walked file
  rw [same, walk_append, Option.bind_eq_some_iff] at led
  obtain ⟨middle, led, stays⟩ := led
  obtain rfl := tree.eq_of_walk_idle each stays
  exact led

/-- A relative path from the directory of a file leads on from the place of that directory. -/
theorem place?_join_parent (found : tree.place? path = some place)
    (file : tree.content? place = some (.file bytes)) (filled : target ≠ [])
    (relative : target.head? ≠ some '/') :
    tree.place? (join (parent path) target) = tree.walk place.dropLast (components target) := by
  by_cases member : '/' ∈ path
  · obtain ⟨name, front, whole, solid⟩ := List.eq_append_cons_of_mem (List.mem_reverse.2 member)
    obtain rfl : path = front.reverse ++ '/' :: name.reverse := by
      simpa using congrArg List.reverse whole
    have solid : '/' ∉ name.reverse := by simpa using solid
    have led := walk_dropSeparators solid found file
    rw [parent_append solid, List.reverse_reverse]
    by_cases kept : dropSeparators front = []
    · -- The file stands right below the root.
      have head : (front.reverse ++ '/' :: name.reverse).head? = some '/' := by
        rcases dropSeparators_eq_nil kept with rfl | last
        · rfl
        · rw [List.head?_append, List.head?_reverse, last]
          rfl
      have root : place.dropLast = [] := by
        rw [kept, start, if_pos head] at led
        exact tree.eq_of_walk_idle (by simp [components]) led
      rw [if_pos ⟨kept, head⟩, join_root relative, place?_separator, root]
    · rw [if_neg fun both => kept both.1, join_of_directory (by simpa using kept)
        (by simpa using head?_dropSeparators front) relative, place?_of_filled (by simp),
        start_dropSeparators kept name.reverse target, components_append_cons, walk_append, led,
        Option.bind_some]
  · obtain ⟨_, walked⟩ := filled_of_place? found
    rw [components_of_solid member, ← List.nil_append [path]] at walked
    have led := walk_file walked file
    have here (other : Text) (near : other.head? ≠ some '/') : tree.start other = tree.working :=
      if_neg near
    have head : path.head? ≠ some '/' := fun same => member (List.mem_of_mem_head? same)
    rw [here path head] at led
    rw [← Option.some.inj led, parent_of_solid member, join_nil, place?_of_filled filled,
      here target relative]

/-- A path that ends in a separator leads to no file. -/
theorem read?_append_separator (front : Text) : tree.read? (front ++ ['/']) = none := by
  unfold read? open?
  cases found : tree.place? (front ++ ['/']) with
  | none => rfl
  | some place =>
      obtain ⟨_, walked⟩ := filled_of_place? found
      rw [components_append_cons, walk_append, Option.bind_eq_some_iff] at walked
      obtain ⟨middle, _, stays⟩ := walked
      obtain ⟨directory, _⟩ := tree.walk_singleton stays
      have idle : ∀ name ∈ components [], name = [] ∨ name = ['.'] := by
        simp [components]
      rw [tree.eq_of_walk_idle idle stays, Option.bind_some, directory]
      rfl

/-- No file is reached from a directory by an empty path. -/
theorem filled_of_read? {directory : Text} (found : tree.read? (join directory target) ≠ none) :
    target ≠ [] := by
  rintro rfl
  apply found
  unfold join
  split
  · contradiction
  · rfl
  · rename_i ends _
    obtain ⟨front, rfl⟩ := List.getLast?_eq_some_iff.1 ends
    rw [List.append_nil, read?_append_separator]
  · rw [List.append_nil, read?_append_separator]

/-- Two paths lead to the same file. -/
def SameFile (tree : Tree) (first second : Text) : Prop :=
  ∃ place bytes, tree.place? first = some place ∧ tree.place? second = some place ∧
    tree.content? place = some (.file bytes)

theorem SameFile.trans {first second third : Text} (former : tree.SameFile first second)
    (latter : tree.SameFile second third) : tree.SameFile first third := by
  obtain ⟨place, bytes, start, middle, file⟩ := former
  obtain ⟨other, _, again, last, _⟩ := latter
  obtain rfl := Option.some.inj (middle.symm.trans again)
  exact ⟨place, bytes, start, last, file⟩

theorem SameFile.read?_eq {first second : Text} (same : tree.SameFile first second) :
    tree.read? first = tree.read? second := by
  obtain ⟨place, _, start, last, _⟩ := same
  rw [read?, read?, open?, open?, start, last]

theorem sameFile_of_place? {first second : Text} (same : tree.place? first = tree.place? second)
    (found : tree.read? first ≠ none) : tree.SameFile first second := by
  obtain ⟨bytes, read⟩ := Option.ne_none_iff_exists'.1 found
  obtain ⟨content, opened, file⟩ := Option.bind_eq_some_iff.1 read
  obtain ⟨place, reached, held⟩ := Option.bind_eq_some_iff.1 opened
  cases content with
  | directory => contradiction
  | file other => exact ⟨place, other, reached, same ▸ reached, held⟩

/-- From the same file the same target leads on to the same file. -/
theorem SameFile.join_parent {first second : Text} (same : tree.SameFile first second)
    (found : tree.read? (join (parent first) target) ≠ none) :
    tree.SameFile (join (parent first) target) (join (parent second) target) := by
  have filled := filled_of_read? found
  obtain ⟨place, bytes, start, last, file⟩ := same
  apply sameFile_of_place? _ found
  by_cases absolute : target.head? = some '/'
  · rw [join_of_absolute absolute, join_of_absolute absolute]
  · rw [place?_join_parent start file filled absolute, place?_join_parent last file filled absolute]

/-- An entry takes the content that is put in its place. -/
def replaced (place : List Text) (content : Content) (entry : List Text × Content) :
    List Text × Content :=
  if entry.1 == place then (place, content) else entry

theorem find?_map_replaced_self {entries : List (List Text × Content)}
    (held : (entries.any fun entry => entry.1 == place) = true) (content : Content) :
    ((entries.map (replaced place content)).find? fun entry => entry.1 == place) =
      some (place, content) := by
  induction entries with
  | nil => contradiction
  | cons entry entries inductionHypothesis =>
      rw [List.map_cons, replaced, List.find?_cons]
      cases here : entry.1 == place with
      | true => simp
      | false =>
          rw [List.any_cons, here, Bool.false_or] at held
          simpa [here] using inductionHypothesis held

theorem find?_map_replaced_other (entries : List (List Text × Content)) (content : Content)
    {other : List Text} (different : other ≠ place) :
    ((entries.map (replaced place content)).find? fun entry => entry.1 == other) =
      entries.find? fun entry => entry.1 == other := by
  induction entries with
  | nil => rfl
  | cons entry entries inductionHypothesis =>
      rw [List.map_cons, replaced, List.find?_cons, List.find?_cons, inductionHypothesis]
      cases here : entry.1 == place with
      | true =>
          have away : (place == other) = false := by simpa using different.symm
          rw [eq_of_beq here, if_pos rfl, away]
      | false => rfl

/-- A place has the content that was put there, and any other place keeps its own. -/
theorem content?_put (inner : ¬place <+: tree.working) (content : Content) (other : List Text) :
    (tree.put place content).content? other =
      if other = place then some content else tree.content? other := by
  have away {other : List Text} (above : other.isPrefixOf tree.working = true) : other ≠ place := by
    rintro rfl
    exact inner (List.isPrefixOf_iff_prefix.1 above)
  unfold put
  split
  · rename_i held
    change (if other.isPrefixOf tree.working then some .directory else
      ((tree.entries.map (replaced place content)).find? fun entry => entry.1 == other).map
        Prod.snd) = _
    split
    · rename_i above
      rw [if_neg (away above), content?, if_pos above]
    · rename_i below
      split
      · rename_i here
        rw [here, find?_map_replaced_self held]
        rfl
      · rename_i different
        rw [find?_map_replaced_other _ _ different, content?, if_neg below]
  · rename_i missing
    have empty : (tree.entries.find? fun entry => entry.1 == place) = none := by
      rw [List.find?_eq_none]
      intro entry member same
      exact missing (List.any_eq_true.2 ⟨entry, member, same⟩)
    unfold content?
    dsimp only
    split
    · rename_i above
      rw [if_neg (away above)]
    · rw [List.find?_append]
      split
      · rename_i here
        rw [here, empty]
        simp
      · rename_i different
        have unlike : (place == other) = false := by simpa using Ne.symm different
        rw [List.find?_cons_of_neg (by simp [unlike]), List.find?_nil, Option.or_none]

/-- The same paths lead to the same places when the same places are directories. -/
theorem walk_congr {other : Tree}
    (same : ∀ place, other.content? place = some .directory ↔
      tree.content? place = some .directory) (place names : List Text) :
    other.walk place names = tree.walk place names := by
  induction names generalizing place with
  | nil => rfl
  | cons name names inductionHypothesis =>
      rw [walk, walk]
      simp only [same, inductionHypothesis]

variable {written : Tree}

theorem working_put (place : List Text) (content : Content) :
    (tree.put place content).working = tree.working := by
  unfold put
  split <;> rfl

/-- A file is written where its path leads, which is no directory. -/
theorem write?_eq_some (wrote : tree.write? path bytes = some written) :
    ∃ place, tree.place? path = some place ∧ tree.content? place ≠ some .directory ∧
      ¬place <+: tree.working ∧ written = tree.put place (.file bytes) := by
  unfold write? at wrote
  split at wrote
  · contradiction
  · rename_i place found
    split at wrote
    · contradiction
    · rename_i free
      refine ⟨place, found, free, fun above => free ?_, (Option.some.inj wrote).symm⟩
      rw [content?, if_pos (List.isPrefixOf_iff_prefix.2 above)]

/-- Writing a file leads no path elsewhere. -/
theorem place?_write (wrote : tree.write? path bytes = some written) (other : Text) :
    written.place? other = tree.place? other := by
  obtain ⟨place, _, free, inner, rfl⟩ := write?_eq_some wrote
  have same (other : List Text) : (tree.put place (.file bytes)).content? other =
      some .directory ↔ tree.content? other = some .directory := by
    rw [content?_put inner]
    split
    · rename_i here
      simp [here, free]
    · rfl
  have starts : (tree.put place (.file bytes)).start other = tree.start other := by
    rw [start, start, working_put]
  rw [place?, place?, starts, walk_congr same]

/-- Where a file is written are the bytes, and everywhere else is what was there. -/
theorem content?_write (wrote : tree.write? path bytes = some written) :
    ∃ place, tree.place? path = some place ∧ written.content? place = some (.file bytes) ∧
      ∀ other, other ≠ place → written.content? other = tree.content? other := by
  obtain ⟨place, found, _, inner, rfl⟩ := write?_eq_some wrote
  refine ⟨place, found, ?_, fun other different => ?_⟩
  · rw [content?_put inner, if_pos rfl]
  · rw [content?_put inner, if_neg different]

/-- A tree is read and written as the files of a system are. -/
theorem lawful_system : system.Lawful where
  read := by
    intro tree path bytes read
    obtain ⟨content, opened, held⟩ := Option.bind_eq_some_iff.1 read
    obtain ⟨place, found, there⟩ := Option.bind_eq_some_iff.1 opened
    cases content with
    | directory => contradiction
    | file other =>
        obtain rfl := Option.some.inj held
        exact ⟨place, found, there⟩
  write := by
    intro tree path bytes next wrote
    obtain ⟨place, found, held, others⟩ := content?_write wrote
    refine ⟨⟨place, (place?_write wrote path).trans found, held⟩, place?_write wrote, ?_⟩
    intro other different
    apply others
    rintro rfl
    exact different found

end Tree

end DataSegment.Files
