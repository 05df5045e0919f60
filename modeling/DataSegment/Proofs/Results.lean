import Mathlib.Data.List.Forall2

namespace DataSegment.Results

variable {Failure A B : Type}

theorem map_eq_ok_iff {f : A → B} {result : Except Failure A} {value : B} :
    result.map f = .ok value ↔ ∃ found, result = .ok found ∧ f found = value := by
  cases result with
  | error _ => simp [Except.map]
  | ok _ => simp [Except.map]

theorem bind_eq_ok_iff {f : A → Except Failure B} {result : Except Failure A} {value : B} :
    (result >>= f) = .ok value ↔ ∃ found, result = .ok found ∧ f found = .ok value := by
  cases result with
  | error _ => simp [bind, Except.bind]
  | ok _ => simp [bind, Except.bind]

/-- A list of results is one result when none of them fails. -/
theorem mapM_eq_ok_iff {f : A → Except Failure B} {entries : List A} {values : List B} :
    entries.mapM f = .ok values ↔
      List.Forall₂ (fun entry value => f entry = .ok value) entries values := by
  induction entries generalizing values with
  | nil => simp [pure, Except.pure, eq_comm]
  | cons entry entries inductionHypothesis =>
      rw [List.mapM_cons, List.forall₂_cons_left_iff]
      cases first : f entry with
      | error _ => simp [bind, Except.bind]
      | ok value =>
          cases later : entries.mapM f with
          | error _ => simp [bind, Except.bind, ← inductionHypothesis, later]
          | ok found =>
              simp [bind, Except.bind, pure, Except.pure, ← inductionHypothesis, later, eq_comm]

theorem mapM_of_forall {f : A → Except Failure B} {value : A → B} {entries : List A}
    (each : ∀ entry ∈ entries, f entry = .ok (value entry)) :
    entries.mapM f = .ok (entries.map value) := by
  rw [mapM_eq_ok_iff, List.forall₂_map_right_iff]
  exact List.forall₂_same.2 each

theorem exists_mapM {f : A → Except Failure B} {entries : List A}
    (each : ∀ entry ∈ entries, ∃ value, f entry = .ok value) :
    ∃ values, entries.mapM f = .ok values := by
  induction entries with
  | nil => exact ⟨[], rfl⟩
  | cons entry entries inductionHypothesis =>
      obtain ⟨value, first⟩ := each entry (List.mem_cons_self ..)
      obtain ⟨values, later⟩ :=
        inductionHypothesis fun other member => each other (List.mem_cons_of_mem _ member)
      refine ⟨value :: values, mapM_eq_ok_iff.2 (.cons first (mapM_eq_ok_iff.1 later))⟩

/-- What holds at the start and is kept by each step holds at the end. -/
theorem foldlM_invariant {f : B → A → Except Failure B} {holds : B → Prop}
    (step : ∀ state entry next, holds state → f state entry = .ok next → holds next)
    {entries : List A} {start last : B} (first : holds start)
    (folded : entries.foldlM f start = .ok last) : holds last := by
  induction entries generalizing start with
  | nil =>
      obtain rfl := Except.ok.inj folded
      exact first
  | cons entry entries inductionHypothesis =>
      rw [List.foldlM_cons, bind_eq_ok_iff] at folded
      obtain ⟨next, stepped, later⟩ := folded
      exact inductionHypothesis (step start entry next first stepped) later

/-- A fold fails at its first step that fails. -/
theorem foldlM_eq_error {f : B → A → Except Failure B} {entries : List A} {start : B}
    {failure : Failure} (folded : entries.foldlM f start = .error failure) :
    ∃ earlier entry later state, entries = earlier ++ entry :: later ∧
      earlier.foldlM f start = .ok state ∧ f state entry = .error failure := by
  induction entries generalizing start with
  | nil => contradiction
  | cons entry entries inductionHypothesis =>
      rw [List.foldlM_cons] at folded
      cases step : f start entry with
      | error reason =>
          rw [step] at folded
          exact ⟨[], entry, entries, start, rfl, rfl, step.trans folded⟩
      | ok next =>
          rw [step] at folded
          obtain ⟨earlier, failing, later, state, rfl, before, fails⟩ := inductionHypothesis folded
          refine ⟨entry :: earlier, failing, later, state, rfl, ?_, fails⟩
          rw [List.foldlM_cons, step]
          exact before

theorem exists_of_mem_left {related : A → B → Prop} {entries : List A} {values : List B}
    (each : List.Forall₂ related entries values) {entry : A} (member : entry ∈ entries) :
    ∃ value ∈ values, related entry value := by
  induction each with
  | nil => simp at member
  | cons first _ inductionHypothesis =>
      rcases List.mem_cons.1 member with rfl | member
      · exact ⟨_, List.mem_cons_self .., first⟩
      · obtain ⟨value, listed, found⟩ := inductionHypothesis member
        exact ⟨value, List.mem_cons_of_mem _ listed, found⟩

theorem mapM_eq_some_of_forall₂ {f : A → Option B} {entries : List A} {values : List B}
    (each : List.Forall₂ (fun entry value => f entry = some value) entries values) :
    entries.mapM f = some values := by
  induction each with
  | nil => rfl
  | cons first _ inductionHypothesis => simp [first, inductionHypothesis]

theorem findSome?_congr {f g : A → Option B} {entries : List A}
    (same : ∀ entry ∈ entries, f entry = g entry) : entries.findSome? f = entries.findSome? g := by
  induction entries with
  | nil => rfl
  | cons entry entries inductionHypothesis =>
      rw [List.findSome?_cons, List.findSome?_cons, same entry (List.mem_cons_self ..),
        inductionHypothesis fun other member => same other (List.mem_cons_of_mem _ member)]

/-- A result that can be a failure and that can be missing. -/
abbrev Checked (Failure A : Type) : Type := ExceptT Failure Option A

/-- A result that is not missing. -/
def present (result : Except Failure A) : Checked Failure A := ExceptT.mk (some result)

theorem present_bind {result : Except Failure A} {f : A → Checked Failure B}
    {g : A → Except Failure B} (same : ∀ value, f value = present (g value)) :
    present result >>= f = present (result >>= g) := by
  cases result with
  | error _ => rfl
  | ok value => exact same value

theorem present_map (result : Except Failure A) (f : A → B) :
    f <$> present result = present (result.map f) := by
  cases result <;> rfl

/-- A value that is found is handed on. -/
theorem lift_some_bind (value : A) (f : A → Checked Failure B) :
    (liftM (some value) : Checked Failure A) >>= f = f value := rfl

theorem mapM_present {f : A → Checked Failure B} {g : A → Except Failure B} {entries : List A}
    (same : ∀ entry ∈ entries, f entry = present (g entry)) :
    entries.mapM f = present (entries.mapM g) := by
  induction entries with
  | nil => rfl
  | cons entry entries inductionHypothesis =>
      obtain ⟨first, others⟩ := List.forall_mem_cons.1 same
      rw [List.mapM_cons, List.mapM_cons, first]
      refine present_bind fun value => ?_
      rw [inductionHypothesis others]
      exact present_bind fun _ => rfl

theorem foldlM_present {f : B → A → Checked Failure B} {g : B → A → Except Failure B}
    (same : ∀ state entry, f state entry = present (g state entry)) (entries : List A)
    (start : B) : entries.foldlM f start = present (entries.foldlM g start) := by
  induction entries generalizing start with
  | nil => rfl
  | cons entry entries inductionHypothesis =>
      rw [List.foldlM_cons, List.foldlM_cons, same]
      exact present_bind inductionHypothesis

end DataSegment.Results
