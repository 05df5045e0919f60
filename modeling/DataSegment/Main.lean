/-
This file runs the program on the files of the system.
-/

import DataSegment.CommandLine.Run

namespace DataSegment.CommandLine

/-- A directory can be opened, but reading it fails. -/
def readHandle (handle : IO.FS.Handle) : IO Files.Content := do
  try
    return .file (← handle.readBinToEnd).toList
  catch _ =>
    return .directory

def openPath (path : Text) : IO (Option Files.Content) := do
  try
    return some (← readHandle (← IO.FS.Handle.mk (String.ofList path) .read))
  catch _ =>
    return none

/-- The contents that were opened, by path. -/
abbrev Opened := List (Text × Option Files.Content)

def Opened.content? (opened : Opened) (path : Text) : Option Files.Content :=
  ((opened.find? fun entry => entry.1 == path).map Prod.snd).join

/-- Opens a path once. -/
def Opened.add (opened : Opened) (path : Text) : IO Opened := do
  if opened.any fun entry => entry.1 == path then return opened
  return (path, ← openPath path) :: opened

/-- The paths that a header includes. -/
def included (path : Text) (content : Option Files.Content) : List Text :=
  match content.bind Files.Content.bytes? with
  | none => []
  | some bytes =>
      (Header.events (Text.Unicode.decode bytes)).filterMap fun event =>
        match event with
        | .inclusion _ target => some (Files.join (Files.parent path) target)
        | _ => none

/-- Opens headers that were not visited and, to a depth, the headers that they include. -/
def Opened.addHeaders (opened : Opened) (visited : List Text) : Nat → List Text → IO Opened
  | 0, paths => paths.foldlM Opened.add opened
  | depth + 1, paths => do
      let fresh := (paths.filter fun path => !visited.contains path).eraseDups
      let opened ← fresh.foldlM Opened.add opened
      let next := fresh.flatMap fun path => included path (opened.content? path)
      if next.isEmpty then return opened
      opened.addHeaders (fresh ++ visited) depth next

/-- Opens all that a run can ask for. -/
def Opened.ofArguments (arguments : Arguments) : IO Opened := do
  let paths := arguments.settings.toList ++ arguments.lists ++ [arguments.input]
  let opened ← paths.foldlM Opened.add []
  opened.addHeaders [] Header.Database.depthLimit [arguments.header]

def printAll (printed : List Printed) : IO Unit := do
  let output ← IO.getStdout
  for entry in printed do
    output.putStrLn (String.ofList entry.text)
  output.flush

/-- Whether a file could be written. -/
def writePath (path : Text) (bytes : List UInt8) : IO Bool := do
  try
    IO.FS.writeBinFile (String.ofList path) (ByteArray.mk bytes.toArray)
    return true
  catch _ =>
    return false

/-- Carries an outcome out on the files of the system. -/
def Outcome.carryOut : Outcome → IO UInt32
  | .finished status printed => do
      printAll printed
      return UInt32.ofNat status
  | .save path bytes written refused => do
      if ← writePath path bytes then
        printAll written
        return 0
      else
        printAll refused
        return 1

end DataSegment.CommandLine

open DataSegment.CommandLine in
def main (arguments : List String) : IO UInt32 := do
  match Readers.standard.arguments (arguments.map String.toList) with
  | .error refusal => refusal.outcome.carryOut
  | .ok arguments => do
      let opened ← Opened.ofArguments arguments
      (run Readers.standard.settings? opened.content? arguments).carryOut
