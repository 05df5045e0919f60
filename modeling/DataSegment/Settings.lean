/-
This file holds the settings of a conversion.
-/

import DataSegment.Text

namespace DataSegment

structure Settings where
  /-- What stands before every symbol of the output. -/
  symbolPrefix : Text
  /-- Names that start with one of these are internal. -/
  internalPrefixes : List Text
  /-- Names that contain one of these are internal. -/
  internalLetters : List Char
  /-- Names that start with this were guessed to be routines and need a prototype. -/
  guessedPrefix : Text
  alignment : UInt32
  /-- The header of each segment, by the name of the segment without its first character. -/
  sections : List (Text × Text)
  skippedSections : List Text
  deriving DecidableEq, Repr

namespace Settings

def standard : Settings where
  symbolPrefix := ['_']
  internalPrefixes := ["loc_".toList]
  internalLetters := ['?', '@']
  guessedPrefix := "sub_".toList
  alignment := 4
  sections := [("rdata".toList, ".section .rodata".toList), ("data".toList, ".data".toList)]
  skippedSections := ["text".toList]

/-- A repeated section keeps its place and takes the later header. -/
def addSection (sections : List (Text × Text)) (entry : Text × Text) : List (Text × Text) :=
  if sections.any fun other => other.1 == entry.1 then
    sections.map fun other => if other.1 == entry.1 then entry else other
  else sections ++ [entry]

def sectionsOfList (entries : List (Text × Text)) : List (Text × Text) :=
  entries.foldl addSection []

end Settings

end DataSegment
