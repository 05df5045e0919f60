/-
This file keeps distinct names in the order of their first mention.
-/

import DataSegment.Text
import Std.Data.TreeSet

namespace DataSegment

/-- Names are listed once, in the order of first mention. The index finds them again. -/
structure Names where
  order : Array Text
  index : Std.TreeSet Text
  distinct : order.toList.Nodup
  indexed : ∀ name, name ∈ index ↔ name ∈ order.toList

namespace Names

def toList (names : Names) : List Text := names.order.toList

def size (names : Names) : Nat := names.order.size

def contains (names : Names) (name : Text) : Bool := names.index.contains name

theorem contains_iff {names : Names} {name : Text} :
    names.contains name = true ↔ name ∈ names.toList := by
  rw [contains, Std.TreeSet.contains_iff_mem]
  exact names.indexed name

theorem size_eq_length (names : Names) : names.size = names.toList.length :=
  Array.length_toList.symm

theorem nodup_toList (names : Names) : names.toList.Nodup := names.distinct

def empty : Names where
  order := #[]
  index := ∅
  distinct := List.nodup_nil
  indexed := by simp

theorem nodup_push {order : Array Text} {name : Text} (distinct : order.toList.Nodup)
    (fresh : name ∉ order.toList) : (order.push name).toList.Nodup := by
  rw [Array.toList_push]
  refine List.nodup_append.2 ⟨distinct, by simp, fun other listed last isLast same => ?_⟩
  rw [List.mem_singleton.1 isLast] at same
  exact fresh (same ▸ listed)

theorem mem_index_push {order : Array Text} {index : Std.TreeSet Text} (name : Text)
    (indexed : ∀ name, name ∈ index ↔ name ∈ order.toList) (other : Text) :
    other ∈ index.insert name ↔ other ∈ (order.push name).toList := by
  rw [Std.TreeSet.mem_insert, indexed, Array.toList_push, List.mem_append, List.mem_singleton,
    Std.LawfulEqCmp.compare_eq_iff_eq, or_comm, eq_comm]

/-- A name that is already listed keeps its place. -/
def insert (names : Names) (name : Text) : Names :=
  if held : names.contains name then names
  else
    { order := names.order.push name
      index := names.index.insert name
      distinct := nodup_push names.distinct fun listed => held (contains_iff.2 listed)
      indexed := mem_index_push name names.indexed }

def insertAll (names : Names) (more : List Text) : Names := more.foldl insert names

theorem toList_insert (names : Names) (name : Text) :
    (names.insert name).toList =
      if name ∈ names.toList then names.toList else names.toList ++ [name] := by
  by_cases held : names.contains name
  · rw [if_pos (contains_iff.1 held), insert, dif_pos held]
  · rw [if_neg fun listed => held (contains_iff.2 listed), insert, dif_neg held]
    exact Array.toList_push

@[simp] theorem mem_insert {names : Names} {name other : Text} :
    other ∈ (names.insert name).toList ↔ other ∈ names.toList ∨ other = name := by
  rw [toList_insert]
  split
  · rename_i listed
    constructor
    · exact Or.inl
    · rintro (held | rfl)
      · exact held
      · exact listed
  · simp

theorem mem_insertAll {names : Names} {more : List Text} {other : Text} :
    other ∈ (names.insertAll more).toList ↔ other ∈ names.toList ∨ other ∈ more := by
  induction more generalizing names with
  | nil => simp [insertAll]
  | cons name more inductionHypothesis =>
      rw [insertAll, List.foldl_cons, ← insertAll, inductionHypothesis, mem_insert, List.mem_cons,
        or_assoc]

end Names

end DataSegment
