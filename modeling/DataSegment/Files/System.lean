/-
This file says what a program asks of the files of a system.
-/

import DataSegment.Text

namespace DataSegment.Files

/-- What a path leads to. A directory can be opened but not read. -/
inductive Content where
  | directory
  | file (bytes : List UInt8)
  deriving DecidableEq, Repr

/-- Only a file has bytes to read. -/
def Content.bytes? : Content → Option (List UInt8)
  | .directory => none
  | .file bytes => some bytes

/-- The files of a system, in any state that they can be in. Several paths may lead to one place,
and opening and writing may fail for any reason. -/
structure System (State Place : Type) where
  /-- Where a path leads, be there something or not. -/
  place? : State → Text → Option Place
  content? : State → Place → Option Content
  /-- A file that can be opened but not read is taken for a directory. -/
  open? : State → Text → Option Content
  /-- Writes a file as a whole. A failure leaves everything as it is. -/
  write? : State → Text → List UInt8 → Option State

namespace System

variable {State Place : Type} (system : System State Place)

def read? (state : State) (path : Text) : Option (List UInt8) :=
  (system.open? state path).bind Content.bytes?

/-- A path leads to a file with some bytes. -/
def Holds (state : State) (path : Text) (bytes : List UInt8) : Prop :=
  ∃ place, system.place? state path = some place ∧
    system.content? state place = some (.file bytes)

/-- A path leads to a file with some bytes in the next state. No path leads elsewhere than before,
and nothing has changed anywhere else. -/
structure Replaces (state : State) (path : Text) (bytes : List UInt8) (next : State) : Prop where
  holds : system.Holds next path bytes
  leads : ∀ other, system.place? next other = system.place? state other
  keeps : ∀ place, system.place? state path ≠ some place →
    system.content? next place = system.content? state place

/-- What is read is what is there, and writing changes nothing but the file that is written. -/
structure Lawful : Prop where
  read : ∀ {state path bytes}, system.read? state path = some bytes →
    system.Holds state path bytes
  write : ∀ {state path bytes next}, system.write? state path bytes = some next →
    system.Replaces state path bytes next

end System

end DataSegment.Files
