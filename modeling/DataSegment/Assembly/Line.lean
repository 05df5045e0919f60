/-
This file lays out the lines of the output.
-/

import DataSegment.Assembly.Statement
import DataSegment.Names

namespace DataSegment.Assembly

open Text

/-- A label is followed by its colon and padded to the column of the statements. -/
def labelField (symbolPrefix name : Text) : Text :=
  let width := symbolPrefix.length + name.length + 1
  symbolPrefix ++ name ++ [':'] ++
    (if width < 8 then ['\t'] else []) ++ (if width < 16 then ['\t'] else []) ++
    (if width ≤ 16 then [' ', ' '] else [' '])

/-- A statement with the label that it defines and the names that its comment keeps. -/
structure Line where
  label : Option Text
  statement : Statement
  comments : List Text
  deriving DecidableEq, Repr

def Line.labelText (symbolPrefix : Text) (line : Line) : Text :=
  match line.label with
  | some name => labelField symbolPrefix name
  | none => ['\t', '\t', ' ', ' ']

def Line.commentText (line : Line) : Text :=
  if line.comments.isEmpty then []
  else ['\t', '\t', '#', ' '] ++ join [',', ' '] line.comments

def Line.render (symbolPrefix : Text) (line : Line) : Text :=
  line.labelText symbolPrefix ++ line.statement.render symbolPrefix ++ line.commentText

/-- The output is a sequence of section openings and lines of data. -/
inductive Output where
  | opening (header : Text) (alignment : UInt32)
  | data (line : Line)
  deriving DecidableEq, Repr

def Output.render (symbolPrefix : Text) : Output → Text
  | .opening header alignment =>
      ['\n'] ++ header ++ "\n.align ".toList ++ decimal alignment.toNat ++ ['\n']
  | .data line => line.render symbolPrefix ++ ['\n']

/-- Every name is declared global on a line of its own. -/
def globalLines (symbolPrefix : Text) (names : Names) : Text :=
  names.toList.flatMap fun name => ".global ".toList ++ symbolPrefix ++ name ++ ['\n']

/-- The sections are followed by a blank line and the global names. -/
def program (symbolPrefix : Text) (body : List Output) (names : Names) : Text :=
  body.flatMap (Output.render symbolPrefix) ++ ['\n'] ++ globalLines symbolPrefix names

end DataSegment.Assembly
