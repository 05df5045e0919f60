/-
This file reads the arguments of the command line.
-/

import DataSegment.Text.Search

namespace DataSegment.CommandLine

open Text

/-- The arguments of a conversion. -/
structure Arguments where
  output : Text
  input : Text
  header : Text
  /-- The lists of suppressed names. -/
  lists : List Text
  /-- The settings document, if one is named. -/
  settings : Option Text
  verbose : Bool
  deriving DecidableEq, Repr

/-- Why no conversion is asked for. -/
inductive Refusal where
  /-- The arguments are wrong. -/
  | usage
  | help
  | version
  deriving DecidableEq, Repr

/-- The arguments that are read so far. -/
structure Collected where
  settings : Option Text
  verbose : Bool
  /-- The arguments that belong to no option, the last one first. -/
  operands : List Text
  deriving DecidableEq, Repr

namespace Collected

def none : Collected := ⟨.none, false, []⟩

/-- No option can be given twice. -/
def setSettings (collected : Collected) (path : Text) : Except Refusal Collected :=
  if collected.settings.isSome then .error .usage
  else .ok { collected with settings := some path }

def setVerbose (collected : Collected) : Except Refusal Collected :=
  if collected.verbose then .error .usage else .ok { collected with verbose := true }

def addOperand (collected : Collected) (operand : Text) : Collected :=
  { collected with operands := operand :: collected.operands }

/-- The output, the input and the header are needed; any others are lists. -/
def finish (collected : Collected) : Except Refusal Arguments :=
  match collected.operands.reverse with
  | output :: input :: header :: lists =>
      .ok ⟨output, input, header, lists, collected.settings, collected.verbose⟩
  | _ => .error .usage

end Collected

/-- What an option leaves to be read. -/
inductive Step where
  | done (collected : Collected)
  /-- The next argument is the settings document. -/
  | wantsSettings (collected : Collected)

/-- Reads the letters of an option that starts with a single dash. The letter `c` takes the rest of
the argument, behind an equals sign or not, or else the next one. -/
def readLetters (collected : Collected) : Text → Except Refusal Step
  | [] => .ok (.done collected)
  | letter :: rest =>
      if letter = 'v' then
        match collected.setVerbose with
        | .error refusal => .error refusal
        | .ok collected => readLetters collected rest
      else if letter = 'c' then
        match rest with
        | [] => .ok (.wantsSettings collected)
        | '=' :: path => (collected.setSettings path).map .done
        | path => (collected.setSettings path).map .done
      else if letter = 'h' then .error .help
      else if letter = 'V' then .error .version
      else .error .usage

/-- Reads an option by its full name. Only the settings option takes a value. -/
def readName (collected : Collected) (name : Text) : Except Refusal Step :=
  match breakOn? ['='] name with
  | some (name, value) =>
      if name = "config".toList then (collected.setSettings value).map .done else .error .usage
  | none =>
      if name = "config".toList then .ok (.wantsSettings collected)
      else if name = "verbose".toList then collected.setVerbose.map .done
      else if name = "help".toList then .error .help
      else if name = "version".toList then .error .version
      else .error .usage

/-- A single dash is no option. -/
def isOption (argument : Text) : Bool :=
  argument.head? == some '-' && decide (1 < argument.length)

def readOption (collected : Collected) : Text → Except Refusal Step
  | '-' :: '-' :: name => readName collected name
  | argument => readLetters collected (argument.drop 1)

/-- Two dashes end the options. -/
def collect (collected : Collected) : List Text → Except Refusal Collected
  | [] => .ok collected
  | argument :: rest =>
      if argument = ['-', '-'] then .ok (rest.foldl Collected.addOperand collected)
      else if isOption argument then
        match readOption collected argument with
        | .error refusal => .error refusal
        | .ok (.done collected) => collect collected rest
        | .ok (.wantsSettings collected) =>
            match rest with
            | [] => .error .usage
            | path :: rest =>
                if isOption path then .error .usage
                else
                  match collected.setSettings path with
                  | .error refusal => .error refusal
                  | .ok collected => collect collected rest
      else collect (collected.addOperand argument) rest

def Arguments.read (arguments : List Text) : Except Refusal Arguments :=
  match collect .none arguments with
  | .error refusal => .error refusal
  | .ok collected => collected.finish

end DataSegment.CommandLine
