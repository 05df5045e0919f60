/-
This file reads the lists of names that are not referenced.
-/

import DataSegment.Listing.Word
import DataSegment.Text.Latin
import Std.Data.TreeSet

namespace DataSegment

/-- The names that are listed. -/
abbrev Suppression := Std.TreeSet Text

namespace Suppression

/-- A line gives its first word, unless that is empty or in a comment. -/
def lineName? (line : Text) : Option Text :=
  let name := (Listing.firstWord false line).1.text
  if Listing.hasNoWord line || name.isEmpty then none else some name

def namesOf (source : Text) : List Text := (Text.lines source).filterMap lineName?

def ofText (source : Text) : Suppression := Std.TreeSet.ofList (namesOf source)

theorem mem_ofText {source name : Text} : name ∈ ofText source ↔ name ∈ namesOf source := by
  simp [ofText, Std.TreeSet.mem_ofList]

/-- The names of all the files, or the first file that cannot be read. -/
def load (read : Text → Option (List UInt8)) (paths : List Text) : Except Text Suppression :=
  paths.foldlM (fun names path =>
    match read path with
    | none => .error path
    | some bytes => .ok (names.insertMany (namesOf (Text.Latin.decode bytes)))) ∅

end Suppression

end DataSegment
