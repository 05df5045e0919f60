/-
This file says which characters part a YAML document, and counts places in it.
-/

import DataSegment.Text

namespace DataSegment.Yaml

open Text

def isBlank (letter : Char) : Bool := letter == ' ' || letter == '\t'

def isBreak (letter : Char) : Bool := ['\n', '\u2028', '\u2029'].contains letter

/-- Whether a blank, a line end or the end of the document comes next. -/
def blankNext (rest : Text) : Bool := rest.head?.all fun next => isBlank next || isBreak next

/-- Documents hold no control characters but tabs and line ends. -/
def isPrintable (letter : Char) : Bool :=
  letter == '\t' || letter == '\n' || letter == '\r' || letter == '\u0085' ||
    (' ' ≤ letter && letter ≤ '~') ||
    ('\u00a0' ≤ letter && letter != '\ufffe' && letter != '\uffff')

/-- Line ends in other spellings become line feeds. -/
def normalLineEnds : Text → Text
  | [] => []
  | '\r' :: '\n' :: rest => '\n' :: normalLineEnds rest
  | letter :: rest =>
      (if letter == '\r' || letter == '\u0085' then '\n' else letter) :: normalLineEnds rest

/-- Three dashes or dots at the start of a line mark the bounds of a document. -/
def startsBound (line : Text) : Bool :=
  (line.take 3 == ['-', '-', '-'] || line.take 3 == ['.', '.', '.']) && blankNext (line.drop 3)

/-- A place in a document, counted from zero. -/
structure Place where
  line : Nat
  column : Nat
  deriving DecidableEq, Repr

def Place.after (place : Place) (letter : Char) : Place :=
  if isBreak letter then ⟨place.line + 1, 0⟩ else ⟨place.line, place.column + 1⟩

end DataSegment.Yaml
