/-
This file lays out what the command line prints.
-/

import DataSegment.Header.Database
import DataSegment.Names
import DataSegment.Conversion.Session

namespace DataSegment.CommandLine

open Text

/-- A run prints lines, some of which explain the error before them. -/
inductive Printed where
  | line (text : Text)
  | reason (text : Text)
  deriving DecidableEq, Repr

inductive Colour where
  | red
  | green
  | yellow
  | blue
  deriving DecidableEq, Repr

def Colour.code : Colour → Text
  | .red => ['3', '1']
  | .green => ['3', '2']
  | .yellow => ['3', '3']
  | .blue => ['3', '4']

/-- An escape sequence for the terminal. -/
def control (code : Text) : Text := ['\x1b', '['] ++ code ++ ['m']

def coloured (colour : Colour) (text : Text) : Text :=
  control colour.code ++ text ++ control ['3', '9']

def bold (colour : Colour) (text : Text) : Text :=
  control colour.code ++ control ['1'] ++ text ++ control ['3', '9'] ++ control ['2', '2']

def severityText : Severity → Text
  | .error => bold .red "error".toList
  | .warning => bold .yellow "warn".toList
  | .note => bold .green "note".toList

/-- A message is followed by the line that it is about, between two margins. -/
def diagnostic (severity : Severity) (message : Text) (location : Location) : List Printed :=
  let margin := "      ".toList ++ coloured .blue ['|']
  let number := (decimal location.line).leftpad 4 ' '
  [.line (location.file ++ [':'] ++ decimal location.line ++ [':', ' '] ++
      severityText severity ++ [':', ' '] ++ message),
    .line margin,
    .line ([' '] ++ coloured .blue (number ++ [' ', '|']) ++ [' '] ++ location.raw),
    .line margin]

def Printed.ofMessage (message : Message) : List Printed :=
  diagnostic message.remark.severity message.remark.message message.location

def Printed.ofFailure (failure : Failure) : List Printed :=
  diagnostic .error failure.cause.message failure.location

/-- Why a run ends before or after its conversion. -/
inductive RunError where
  | unreadable (path : Text)
  | unwritable (path : Text)
  | badSettings (path : Text)
  | header (error : Header.Error)
  deriving DecidableEq, Repr

def RunError.message : RunError → Text
  | .unreadable path => "Failed to open file: ".toList ++ path
  | .unwritable path => "Failed to write file: ".toList ++ path
  | .badSettings path => "Invalid config: ".toList ++ path
  | .header error => error.message

/-- What lies behind an error, where the message does not tell. -/
def RunError.reason? : RunError → Option Text
  | .unreadable _ | .header (.unreadable _) => some "it cannot be read".toList
  | .unwritable _ => some "it cannot be written".toList
  | .badSettings _ => some "it is no document of settings".toList
  | .header _ => none

def Printed.ofError (error : RunError) : List Printed :=
  .line (bold .red "error".toList ++ [':', ' '] ++ error.message) ::
    (error.reason?.map Printed.reason).toList

/-- A reason is set in below its error. -/
def Printed.text : Printed → Text
  | .line text => text
  | .reason text => "  ".toList ++ coloured .blue "caused by".toList ++ [':', ' '] ++ text

/-- A text fills a field from the left. -/
def padded (width : Nat) (text : Text) : Text := text.rightpad width ' '

def numbered (symbolPrefix : Text) (number : Nat) : List Text → List Printed
  | [] => []
  | name :: rest =>
      .line (padded 6 (decimal number) ++ [' '] ++ symbolPrefix ++ name) ::
        numbered symbolPrefix (number + 1) rest

/-- The table of the global names, counted from zero. -/
def symbolTable (symbolPrefix : Text) (names : Names) : List Printed :=
  [.line "=== Public Symbols ===".toList,
    .line (padded 6 "No".toList ++ [' '] ++ padded 40 "Name".toList),
    .line (List.replicate 47 '-')] ++
    numbered symbolPrefix 0 names.toList ++ [.line []]

end DataSegment.CommandLine
