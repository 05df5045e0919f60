/-
This file reads a listing line by line.
-/

import DataSegment.Conversion.Statement

namespace DataSegment

open Assembly Listing

/-- Where a line stands in a listing. -/
inductive Position where
  | outside
  | inside
  deriving DecidableEq, Repr

/-- What the reading of a line leads to. -/
structure Reading where
  /-- The line as it stands in the listing. -/
  raw : Text
  remarks : List Remark
  /-- The label that the line defines, even if the line fails. -/
  label : Option Text
  /-- The position of the next line and the output, unless the line fails. -/
  result : Except Cause (Position × List Output)

namespace Environment

/-- A skipped segment leaves the reading outside; any other needs a header. -/
def openSegment (environment : Environment) (name : Text) :
    List Remark × Except Cause (Position × List Output) :=
  let key := segmentKey name
  let settings := environment.settings
  if settings.skippedSections.any (Text.sameLetters key) then
    ([.skippedSegment name], .ok (.outside, []))
  else
    match settings.sections.find? fun entry => Text.sameLetters key entry.1 with
    | some entry => ([], .ok (.inside, [.opening entry.2 settings.alignment]))
    | none => ([], .error (.unknownSegment name))

/-- Outside of the segments only the start of a segment counts. -/
def readOutside (environment : Environment) (line : Text) : Reading :=
  match segmentName? line with
  | none => ⟨line, [], none, .ok (.outside, [])⟩
  | some name =>
      let opened := environment.openSegment name
      ⟨line, opened.1, none, opened.2⟩

def truncationRemarks (words : List Word) : List Remark :=
  (words.filter Word.truncated).map fun word => .truncated word.text

def entryRemarks (environment : Environment) : Entry → List Remark
  | .declaration declaration => environment.declarationRemarks declaration
  | _ => []

def entryLabel : Entry → Option Text
  | .declaration declaration => declaration.label
  | _ => none

def readEntry (environment : Environment) : Entry → Except Cause (Position × List Output)
  | .closing => .ok (.outside, [])
  | .ignored => .ok (.inside, [])
  | .align boundary =>
      (readNumber boundary).map fun value => (.inside, [.data ⟨none, .align value, []⟩])
  | .declaration declaration =>
      (environment.declarationLine declaration).map fun line => (.inside, [.data line])
  | .unknownLine word => .error (.unknownLine word)
  | .unknownDeclaration first second => .error (.unknownDeclaration first second)

/-- Inside a segment every line is a declaration, ends the segment or is ignored. -/
def readInside (environment : Environment) (line : Text) : Reading :=
  let words := words line
  let entry := Entry.ofWords (words.map Word.text)
  ⟨line, truncationRemarks words ++ environment.entryRemarks entry, entryLabel entry,
    environment.readEntry entry⟩

def readLine (environment : Environment) : Position → Text → Reading
  | .outside => environment.readOutside
  | .inside => environment.readInside

/-- The readings of a listing up to the first line that fails. -/
def readings (environment : Environment) (position : Position) : List Text → List Reading
  | [] => []
  | line :: rest =>
      let reading := environment.readLine position line
      match reading.result with
      | .error _ => [reading]
      | .ok (next, _) => reading :: environment.readings next rest

end Environment

namespace Reading

def output (reading : Reading) : List Output :=
  match reading.result with
  | .ok (_, output) => output
  | .error _ => []

def cause? (reading : Reading) : Option Cause :=
  match reading.result with
  | .ok _ => none
  | .error cause => some cause

end Reading

end DataSegment
