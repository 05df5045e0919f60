/-
This file keeps the state of a conversion over several listings.
-/

import DataSegment.Conversion.Reading

namespace DataSegment

open Assembly

/-- What one listing leaves to the next. -/
structure Session where
  file : Text
  /-- The number of lines that were read. -/
  line : Nat
  /-- The last line that was read. -/
  raw : Text
  /-- The labels that were defined. -/
  defined : Names
  messages : List Message
  /-- The output that was not returned yet. -/
  pending : List Output

namespace Session

def start (file : Text) : Session := ⟨file, 0, [], .empty, [], []⟩

def location (session : Session) : Location := ⟨session.file, session.line, session.raw⟩

/-- The remarks about successive lines with their places. -/
def locate (file : Text) (line : Nat) : List Reading → List Message
  | [] => []
  | reading :: rest =>
      reading.remarks.map (⟨·, ⟨file, line + 1, reading.raw⟩⟩) ++ locate file (line + 1) rest

/-- Takes in the readings of a listing. -/
def absorb (session : Session) (readings : List Reading) : Session where
  file := session.file
  line := session.line + readings.length
  raw := (readings.getLast?.map Reading.raw).getD session.raw
  defined := session.defined.insertAll (readings.filterMap Reading.label)
  messages := session.messages ++ locate session.file session.line readings
  pending := session.pending ++ readings.flatMap Reading.output

/-- Converts a listing. A success returns all the output that is pending; a failure keeps it. -/
def convert (environment : Environment) (session : Session) (source : Text) :
    Except Failure Text × Session :=
  let readings := environment.readings .outside (Text.lines source)
  let after := session.absorb readings
  match readings.getLast?.bind Reading.cause? with
  | some cause => (.error ⟨cause, after.location⟩, after)
  | none =>
      (.ok (program environment.settings.symbolPrefix after.pending after.defined),
        { after with pending := [] })

/-- Looks a name up at the current line. -/
def refer (environment : Environment) (session : Session) (name : Text) :
    Except Failure Reference × Session :=
  match environment.reference name with
  | .error cause => (.error ⟨cause, session.location⟩, session)
  | .ok reference =>
      (.ok reference,
        { session with
          messages := session.messages ++
            (environment.referenceRemarks name).map (⟨·, session.location⟩) })

end Session

end DataSegment
