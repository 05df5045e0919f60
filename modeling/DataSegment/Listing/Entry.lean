/-
This file tells the lines inside a data segment apart.
-/

import DataSegment.Listing.Word
import DataSegment.Width

namespace DataSegment.Listing

/-- Data of one width, which may define a label. -/
structure Declaration where
  label : Option Text
  width : Width
  operands : List Text
  deriving DecidableEq, Repr

inductive Entry where
  /-- The segment ends here. -/
  | closing
  /-- The line says nothing about data. -/
  | ignored
  | align (boundary : Text)
  | declaration (declaration : Declaration)
  /-- A line of one word. -/
  | unknownLine (word : Text)
  /-- Neither of the first two words is a directive. -/
  | unknownDeclaration (first second : Text)
  deriving DecidableEq, Repr

/-- The directive is the first word of a declaration without a label, else the second. -/
def Entry.ofDeclaration (first second : Text) (rest : List Text) : Entry :=
  match Width.ofDirective? first with
  | some width => .declaration ⟨none, width, second :: rest⟩
  | none =>
      match Width.ofDirective? second with
      | some width => .declaration ⟨some first, width, rest⟩
      | none => .unknownDeclaration first second

def Entry.ofWords : List Text → Entry
  | [] => .ignored
  | [word] => if word = ['e', 'n', 'd'] then .closing else .unknownLine word
  | first :: second :: rest =>
      if rest = [] ∧ (second = ['e', 'n', 'd', 's'] ∨ first = ['e', 'n', 'd']) then .closing
      else if first = "assume".toList then .ignored
      else if first = "align".toList then .align second
      else .ofDeclaration first second rest

/-- A line starts a segment when its second word is the keyword for it. No comma may stand between
the two. -/
def segmentName? (line : Text) : Option Text :=
  if hasNoWord line then none
  else
    let name := firstWord false line
    if hasNoWord name.2 then none
    else if (firstWord false name.2).1.text = "segment".toList then some name.1.text
    else none

/-- The first character of a segment name says nothing when it is an ASCII character; after any
other, nothing of the name counts. -/
def segmentKey : Text → Text
  | [] => []
  | first :: rest => if first.toNat < 128 then rest else []

end DataSegment.Listing
