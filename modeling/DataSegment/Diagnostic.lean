/-
This file holds what can be remarked about a line of a listing, and how it is reported.
-/

import DataSegment.Text.Numeral

namespace DataSegment

open Text

/-- A remark about a line stops nothing. -/
inductive Remark where
  /-- Only the start of a word is kept. -/
  | truncated (word : Text)
  | skippedSegment (name : Text)
  /-- A name without a prototype is taken for data. -/
  | undescribed (name : Text)
  deriving DecidableEq, Repr

/-- Why a line of a listing cannot be converted. -/
inductive Cause where
  | unknownSegment (name : Text)
  | unknownLine (word : Text)
  | unknownDeclaration (first second : Text)
  | missingOperand
  | emptyOperand
  | badNumber (word : Text)
  | openQuote (body : Text)
  | textAfterQuote (body : Text)
  | byteRange (word : Text)
  | badRepeat (word : Text)
  | packedInList (word : Text)
  | floatInList (word : Text)
  /-- A name that was guessed to be a routine has no prototype. -/
  | unknownRoutine (name : Text)
  /-- A routine that takes its parameters in unsuitable registers. -/
  | registerCall (signature : Text)
  deriving DecidableEq, Repr

inductive Severity where
  | error
  | warning
  | note
  deriving DecidableEq, Repr

def quoted (start word : Text) : Text := start ++ "`".toList ++ word ++ "`".toList

namespace Remark

def severity : Remark → Severity
  | .truncated _ => .warning
  | .skippedSegment _ | .undescribed _ => .note

def message : Remark → Text
  | .truncated word => quoted [] word ++ " truncated".toList
  | .skippedSegment name => quoted "skipping segment ".toList name
  | .undescribed name =>
      quoted "no prototype for ".toList name ++ ", referenced as data".toList

end Remark

def Cause.message : Cause → Text
  | .unknownSegment name => quoted "Unhandled section: ".toList name
  | .unknownLine word => quoted "Unhandled: ".toList word
  | .unknownDeclaration first second =>
      quoted "Unhandled decl: ".toList (first ++ [' '] ++ second)
  | .missingOperand => "Missing operand".toList
  | .emptyOperand => "Empty operand".toList
  | .badNumber word => quoted "Number parsing failed: ".toList word
  | .openQuote body => quoted "Unterminated string: ".toList body
  | .textAfterQuote body => quoted "Text after closing quote: ".toList body
  | .byteRange word => quoted "Bad string trailing byte: ".toList word
  | .badRepeat word => quoted "Bad dup: ".toList word
  | .packedInList word => quoted "Packed literal must be the only operand: ".toList word
  | .floatInList word => quoted "Float literal must be the only operand: ".toList word
  | .unknownRoutine name => quoted "Guessed routine missing proto: ".toList name
  | .registerCall signature => "Unhandled reg call: ".toList ++ signature

/-- A line of a listing, counted from one. Line zero stands before the first. -/
structure Location where
  file : Text
  line : Nat
  raw : Text
  deriving DecidableEq, Repr

/-- A remark and the line that it is about. -/
structure Message where
  remark : Remark
  location : Location
  deriving DecidableEq, Repr

/-- A cause of failure and the line where the conversion stopped. -/
structure Failure where
  cause : Cause
  location : Location
  deriving DecidableEq, Repr

/-- The one-line form of a failure. -/
def Failure.message (failure : Failure) : Text :=
  failure.location.file ++ [':'] ++ decimal failure.location.line ++ [':', ' '] ++
    failure.cause.message

end DataSegment
