/-
This file runs a conversion from its arguments to the file that it writes. How arguments and
settings are read and what the files of the system are is left open.
-/

import DataSegment.CommandLine.Arguments
import DataSegment.CommandLine.Console
import DataSegment.Files.Tree
import DataSegment.Settings.Document
import DataSegment.Suppression

namespace DataSegment.CommandLine

open Text

/-- What a run comes to. -/
inductive Outcome where
  | finished (status : Nat) (printed : List Printed)
  /-- One file is to be written. What is printed depends on whether that works. -/
  | save (path : Text) (bytes : List UInt8) (written refused : List Printed)
  deriving DecidableEq, Repr

/-- How the arguments are read, and the settings in a document. -/
structure Readers where
  arguments : List Text → Except Refusal Arguments
  settings? : List UInt8 → Option Settings

/-- Settings that cannot be opened are told apart from a bad document. -/
def readSettings (settings? : List UInt8 → Option Settings)
    (opened : Text → Option Files.Content) (path : Text) : Except RunError Settings :=
  match opened path with
  | none => .error (.unreadable path)
  | some content =>
      match content.bytes?.bind settings? with
      | none => .error (.badSettings path)
      | some settings => .ok settings

/-- Without a document the standard settings are used. -/
def chosenSettings (settings? : List UInt8 → Option Settings)
    (opened : Text → Option Files.Content) : Option Text → Except RunError Settings
  | none => .ok .standard
  | some path => readSettings settings? opened path

/-- Progress is only printed on request. -/
def progress (verbose : Bool) (lines : List Text) : List Printed :=
  if verbose then lines.map Printed.line else []

def source (path : Text) : Text := "  < ".toList ++ path

/-- The status of a run that fails. -/
def stop (printed : List Printed) (error : RunError) : Outcome :=
  .finished 1 (printed ++ Printed.ofError error)

/-- Messages are printed even if the conversion fails, notes only on request. -/
def messages (verbose : Bool) (session : Session) : List Printed :=
  (session.messages.filter fun message =>
    verbose || message.remark.severity != .note).flatMap Printed.ofMessage

/-- Converts an input that was read. -/
def convert (arguments : Arguments) (environment : Environment) (printed : List Printed)
    (bytes : List UInt8) : Outcome :=
  let start := Session.start arguments.input
  let converted := start.convert environment (Latin.decode bytes)
  let printed := printed ++ messages arguments.verbose converted.2
  match converted.1 with
  | .error failure => .finished 1 (printed ++ Printed.ofFailure failure)
  | .ok text =>
      let printed := printed ++
        progress arguments.verbose ["3. Write Output".toList, "  > ".toList ++ arguments.output]
      let table :=
        if arguments.verbose then
          symbolTable environment.settings.symbolPrefix converted.2.defined
        else []
      .save arguments.output (Latin.encode text) (printed ++ table)
        (printed ++ Printed.ofError (.unwritable arguments.output))

/-- Loads the settings, the header, the lists and the input, in this order. -/
def run (settings? : List UInt8 → Option Settings) (opened : Text → Option Files.Content)
    (arguments : Arguments) : Outcome :=
  let read := fun path => (opened path).bind Files.Content.bytes?
  let progress := progress arguments.verbose
  let printed := progress
    (["MASM Data Converter".toList, "1. Load Config & Symbol Tables".toList] ++
      (arguments.settings.map source).toList)
  match chosenSettings settings? opened arguments.settings with
  | .error error => stop printed error
  | .ok settings =>
      let printed := printed ++ progress [source arguments.header]
      match Header.Database.load read arguments.header with
      | .error error => stop printed (.header error)
      | .ok prototypes =>
          let printed := printed ++ progress (arguments.lists.map source)
          match Suppression.load read arguments.lists with
          | .error path => stop printed (.unreadable path)
          | .ok suppressed =>
              let counts := "  ".toList ++ decimal prototypes.size ++ " prototypes, ".toList ++
                decimal suppressed.size ++ " suppressed names".toList
              let printed := printed ++
                progress [counts, "2. Convert Data Segments".toList, source arguments.input]
              match read arguments.input with
              | none => stop printed (.unreadable arguments.input)
              | some bytes => convert arguments ⟨settings, prototypes, suppressed⟩ printed bytes

/-- A refusal ends the run with a status of its own. -/
def Refusal.outcome : Refusal → Outcome
  | .usage => .finished 2 []
  | .help =>
      .finished 0 [.line
        "usage: [-v] [-c SETTINGS] OUTPUT INPUT HEADER [LIST]...".toList]
  | .version => .finished 0 [.line "0.1.0".toList]

/-- Reads the arguments and runs what they ask for. -/
def start (readers : Readers) (opened : Text → Option Files.Content) (words : List Text) :
    Outcome :=
  match readers.arguments words with
  | .error refusal => refusal.outcome
  | .ok arguments => run readers.settings? opened arguments

/-- What a run leaves behind. -/
structure Ended (State : Type) where
  status : Nat
  printed : List Printed
  /-- The files after the run. -/
  tree : State

section

variable {State Place : Type} (system : Files.System State Place) (tree : State)

/-- Carries an outcome out on the files of a system. -/
def Outcome.perform : Outcome → Ended State
  | .finished status printed => ⟨status, printed, tree⟩
  | .save path bytes written refused =>
      match system.write? tree path bytes with
      | none => ⟨1, refused, tree⟩
      | some next => ⟨0, written, next⟩

/-- Runs the program on the files of a system. -/
def runWith (readers : Readers) (words : List Text) : Ended State :=
  (start readers (system.open? tree) words).perform system tree

end

/-- The readers of arguments and of settings documents that are modelled. -/
def Readers.standard : Readers where
  arguments := Arguments.read
  settings? := fun bytes => (Text.Unicode.decode? bytes).bind Settings.ofText?

/-- Loads the settings in a YAML document. -/
def loadSettings (opened : Text → Option Files.Content) (path : Text) : Except RunError Settings :=
  readSettings Readers.standard.settings? opened path

/-- Runs the program on a tree. -/
def runOn (tree : Files.Tree) (words : List Text) : Ended Files.Tree :=
  runWith Files.Tree.system tree .standard words

end DataSegment.CommandLine
