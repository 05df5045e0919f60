/-
This file collects the prototypes of a header and of the files that it includes.
-/

import DataSegment.Files.Path
import DataSegment.Header.Declaration
import DataSegment.Header.Scan
import DataSegment.Text.Unicode
import Std.Data.TreeMap

namespace DataSegment.Header

open Text

/-- Why a header cannot be used. -/
inductive Error where
  | unknownRegister (file : Text) (line : Nat) (name : Text)
  | malformed (file : Text) (line : Nat) (text : Text)
  | openComment (file : Text) (line : Nat)
  | includeDepth (file : Text) (line : Nat) (target : Text)
  | unreadable (file : Text)
  deriving DecidableEq, Repr

def Fault.locate (file : Text) (line : Nat) : Fault → Error
  | .unknownRegister name => .unknownRegister file line name
  | .malformed text => .malformed file line text

/-- The message about an error names the file and the line where there is one. -/
def Error.message : Error → Text
  | .unknownRegister file line name =>
      file ++ [':'] ++ decimal line ++ ": Unknown register: `".toList ++ name ++ "`".toList
  | .malformed file line text =>
      file ++ [':'] ++ decimal line ++ ": Malformed declaration: `".toList ++ text ++ "`".toList
  | .openComment file line =>
      file ++ [':'] ++ decimal line ++ ": Unterminated comment".toList
  | .includeDepth file line target =>
      file ++ [':'] ++ decimal line ++ ": Include nested too deeply: `".toList ++ target ++
        "`".toList
  | .unreadable file => "Failed to open file: ".toList ++ file

/-- Prototypes by name. -/
structure Database where
  entries : Std.TreeMap Text Prototype
  named : ∀ (name : Text) (prototype : Prototype),
    entries[name]? = some prototype → prototype.name = name

namespace Database

def empty : Database := ⟨∅, by simp⟩

def size (database : Database) : Nat := database.entries.size

def lookup? (database : Database) (name : Text) : Option Prototype := database.entries[name]?

theorem name_of_lookup? {database : Database} {name : Text} {prototype : Prototype}
    (found : database.lookup? name = some prototype) : prototype.name = name :=
  database.named name prototype found

theorem named_insert {entries : Std.TreeMap Text Prototype}
    (named : ∀ (name : Text) (prototype : Prototype),
      entries[name]? = some prototype → prototype.name = name)
    (prototype : Prototype) (name : Text) (other : Prototype)
    (found : (entries.insert prototype.name prototype)[name]? = some other) :
    other.name = name := by
  rw [Std.TreeMap.getElem?_insert] at found
  split at found
  · rename_i same
    rw [← Option.some.inj found]
    exact Std.LawfulEqCmp.eq_of_compare same
  · exact named name other found

/-- A later declaration of a name replaces the earlier one. -/
def insert (database : Database) (prototype : Prototype) : Database :=
  ⟨database.entries.insert prototype.name prototype, named_insert database.named prototype⟩

theorem lookup?_insert (database : Database) (prototype : Prototype) (name : Text) :
    (database.insert prototype).lookup? name =
      if prototype.name = name then some prototype else database.lookup? name := by
  simp [lookup?, insert, Std.TreeMap.getElem?_insert]

/-- Declares what an event tells about; `follow` adds what an included file declares. -/
def declare (file : Text) (follow : Nat → Text → Database → Except Error Database)
    (database : Database) : Event → Except Error Database
  | .statement line text =>
      match prototype? (withoutSpecifiers text) with
      | .error fault => .error (fault.locate file line)
      | .ok none => .ok database
      | .ok (some prototype) => .ok (database.insert prototype)
  | .inclusion line target => follow line target database
  | .openComment line => .error (.openComment file line)
  | .openStatement line text => .error (.malformed file line text)

/-- Declares the contents of a text in order. Files are included to the depth that is `allowed`,
each relative to the directory of the file that includes it. -/
def readText (read : Text → Option (List UInt8)) (allowed : Nat) (file directory source : Text)
    (database : Database) : Except Error Database :=
  match allowed with
  | 0 =>
      (events source).foldlM
        (declare file fun line target _ => .error (.includeDepth file line target)) database
  | allowed + 1 =>
      (events source).foldlM
        (declare file fun _ target database =>
          let path := Files.join directory target
          match read path with
          | none => .error (.unreadable path)
          | some bytes =>
              readText read allowed path (Files.parent path) (Unicode.decode bytes) database)
        database

/-- The depth to which files are included. -/
def depthLimit : Nat := 16

/-- A header text of its own includes files from the working directory. -/
def ofText (read : Text → Option (List UInt8)) (file source : Text) : Except Error Database :=
  readText read depthLimit file ['.'] source empty

def load (read : Text → Option (List UInt8)) (path : Text) : Except Error Database :=
  match read path with
  | none => .error (.unreadable path)
  | some bytes =>
      readText read depthLimit path (Files.parent path) (Unicode.decode bytes) empty

end Database

end DataSegment.Header
