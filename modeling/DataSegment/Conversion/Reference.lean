/-
This file decides how a reference to a name is written.
-/

import DataSegment.Diagnostic
import DataSegment.Header.Database
import DataSegment.Settings
import DataSegment.Suppression

namespace DataSegment

/-- What a conversion knows about names. -/
structure Environment where
  settings : Settings
  prototypes : Header.Database
  suppressed : Suppression

/-- A name is referenced as zero or as an external symbol. -/
inductive Reference where
  | suppressed
  /-- The symbol may have a prototype or be taken for data without one. -/
  | external (described : Bool)
  deriving DecidableEq, Repr

/-- A data symbol can always be referenced, a routine only when it can be called. -/
def Header.Prototype.referable (prototype : Header.Prototype) : Bool :=
  prototype.kind == .data || prototype.callable

namespace Environment

/-- Internal and listed names are suppressed. -/
def suppresses (environment : Environment) (name : Text) : Bool :=
  environment.settings.internalPrefixes.any (·.isPrefixOf name) ||
    name.any (environment.settings.internalLetters.contains ·) ||
    environment.suppressed.contains name

/-- A name that was guessed to be a routine needs a prototype. -/
def reference (environment : Environment) (name : Text) : Except Cause Reference :=
  if environment.suppresses name then .ok .suppressed
  else
    match environment.prototypes.lookup? name with
    | none =>
        if environment.settings.guessedPrefix.isPrefixOf name then .error (.unknownRoutine name)
        else .ok (.external false)
    | some prototype =>
        if prototype.referable then .ok (.external true)
        else .error (.registerCall prototype.signature)

/-- A symbol without a prototype is remarked upon. -/
def referenceRemarks (environment : Environment) (name : Text) : List Remark :=
  match environment.reference name with
  | .ok (.external false) => [.undescribed name]
  | _ => []

end Environment

end DataSegment
