/-
This file cuts a header into statements and includes.
-/

import DataSegment.Header.Comment
import DataSegment.Text.Search
import DataSegment.Text.White

namespace DataSegment.Header

open Text

/-- What a header holds, in order. Lines are counted from one. -/
inductive Event where
  /-- A statement that starts on a line. -/
  | statement (line : Nat) (text : Text)
  /-- A line that includes the named file. -/
  | inclusion (line : Nat) (target : Text)
  /-- The header ends inside the comment that starts on a line. -/
  | openComment (line : Nat)
  /-- The header ends inside the statement that starts on a line. -/
  | openStatement (line : Nat) (text : Text)
  deriving DecidableEq, Repr

/-- The state between two characters of a header. -/
structure Scan where
  /-- The statement so far, with its last character first. -/
  pending : Text
  /-- The line where the statement starts. -/
  start : Nat
  /-- The number of open braces. -/
  depth : Nat
  /-- Whether a block comment is open. -/
  inside : Bool
  /-- The line where the last block comment was left open. -/
  opened : Nat
  deriving DecidableEq, Repr

namespace Scan

def initial : Scan := ⟨[], 1, 0, false, 0⟩

/-- A statement starts at its first character that is not white space. -/
def push (line : Nat) (scan : Scan) (letter : Char) : Scan :=
  if scan.pending.isEmpty && isWhite letter then scan
  else
    { scan with
      depth :=
        if letter = '\x7b' then scan.depth + 1
        else if letter = '\x7d' then scan.depth - 1
        else scan.depth
      start := if scan.pending.isEmpty then line else scan.start
      pending := letter :: scan.pending }

/-- A semicolon outside braces ends a statement. -/
def readCode (line : Nat) (scan : Scan) : Text → List Event × Scan
  | [] => ([], scan)
  | letter :: rest =>
      if letter = ';' ∧ scan.depth = 0 then
        let later := readCode line { scan with pending := [] } rest
        (.statement scan.start scan.pending.reverse :: later.1, later.2)
      else readCode line (push line scan letter) rest

/-- A line that starts with a hash between two statements belongs to none. -/
def isDirective (scan : Scan) (code : Text) : Bool :=
  scan.pending.isEmpty && (trimStart code).head? == some '#'

end Scan

/-- The file name that an include line gives in double quotes. -/
def includedFile? (line : Text) : Option Text :=
  match line with
  | '#' :: rest =>
      match after? "include".toList (trimStart rest) with
      | none => none
      | some operand =>
          match trim operand with
          | '"' :: name => (breakOn? ['"'] name).map Prod.fst
          | _ => none
  | _ => none

namespace Scan

def readLine (line : Nat) (scan : Scan) (raw : Text) : List Event × Scan :=
  let stripped := withoutComments scan.inside raw
  let scan :=
    { scan with
      inside := stripped.2
      opened := if !scan.inside && stripped.2 then line else scan.opened }
  if scan.isDirective stripped.1 then
    (((includedFile? (trim stripped.1)).map (Event.inclusion line)).toList, scan)
  else
    let read := readCode line scan stripped.1
    (read.1, push line read.2 ' ')

/-- An open comment hides whether a statement is open too. -/
def finish (scan : Scan) : List Event :=
  if scan.inside then [.openComment scan.opened]
  else if scan.pending.isEmpty then []
  else [.openStatement scan.start (trim scan.pending.reverse)]

/-- The lines are counted on from `line`. -/
def readLines (line : Nat) (scan : Scan) : List Text → List Event × Scan
  | [] => ([], scan)
  | raw :: rest =>
      let read := scan.readLine line raw
      let later := readLines (line + 1) read.2 rest
      (read.1 ++ later.1, later.2)

end Scan

/-- The events of a header text. -/
def events (source : Text) : List Event :=
  let read := Scan.initial.readLines 1 (lines source)
  read.1 ++ read.2.finish

end DataSegment.Header
