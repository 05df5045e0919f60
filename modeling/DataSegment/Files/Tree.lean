/-
This file models a tree of files and directories with a working directory.
-/

import DataSegment.Files.System
import DataSegment.Text.Unicode

namespace DataSegment.Files

/-- Directories and files, each by the names that lead to it from the root. -/
structure Tree where
  /-- The names that lead to the working directory. -/
  working : List Text
  entries : List (List Text × Content)
  deriving DecidableEq, Repr

/-- The number of bytes that a name may take. -/
def nameLimit : Nat := 255

def isName (name : Text) : Bool :=
  !name.contains '\x00' && decide (Text.Unicode.size name ≤ nameLimit)

namespace Tree

/-- A tree with nothing in its working directory. -/
def empty : Tree := ⟨["work".toList], []⟩

/-- The working directory and those that lead to it are always there. -/
def content? (tree : Tree) (place : List Text) : Option Content :=
  if place.isPrefixOf tree.working then some .directory
  else (tree.entries.find? fun entry => entry.1 == place).map Prod.snd

/-- Follows names from one place to another. Each step leaves a directory; the last may lead to
nothing. The root is above itself. -/
def walk (tree : Tree) (place : List Text) : List Text → Option (List Text)
  | [] => some place
  | name :: rest =>
      if tree.content? place = some .directory then
        if name = [] ∨ name = ['.'] then tree.walk place rest
        else if name = ['.', '.'] then tree.walk place.dropLast rest
        else if isName name then tree.walk (place ++ [name]) rest
        else none
      else none

/-- An absolute path starts at the root, any other in the working directory. -/
def start (tree : Tree) (path : Text) : List Text :=
  if path.head? = some '/' then [] else tree.working

/-- Any path that is not empty may lead to a place. -/
def place? (tree : Tree) (path : Text) : Option (List Text) :=
  if path.isEmpty then none else tree.walk (tree.start path) (path.splitOnP (· == '/'))

/-- What can be opened under a path. -/
def open? (tree : Tree) (path : Text) : Option Content := (tree.place? path).bind tree.content?

def read? (tree : Tree) (path : Text) : Option (List UInt8) := (tree.open? path).bind Content.bytes?

/-- Puts a content in a place. -/
def put (tree : Tree) (place : List Text) (content : Content) : Tree :=
  if tree.entries.any fun entry => entry.1 == place then
    ⟨tree.working, tree.entries.map fun entry => if entry.1 == place then (place, content) else entry⟩
  else ⟨tree.working, tree.entries ++ [(place, content)]⟩

/-- A file is made or replaced, unless its directory is missing or a directory has its name. -/
def write? (tree : Tree) (path : Text) (bytes : List UInt8) : Option Tree :=
  match tree.place? path with
  | none => none
  | some place =>
      if tree.content? place = some .directory then none else some (tree.put place (.file bytes))

/-- A tree as the files of a system. -/
def system : System Tree (List Text) := ⟨place?, content?, open?, write?⟩

/-- Makes a directory where there is nothing. -/
def makeDirectory (tree : Tree) (place : List Text) : Tree :=
  if (tree.content? place).isSome then tree else tree.put place .directory

/-- Makes the directories that lead to a place, and the place itself. -/
def makeDirectories (tree : Tree) (place : List Text) : Tree :=
  (List.range place.length).foldl (fun tree index => tree.makeDirectory (place.take (index + 1)))
    tree

/-- The names that lead to a path that is made, without the empty ones. -/
def names (tree : Tree) (path : Text) : List Text :=
  tree.start path ++ (path.splitOnP (· == '/')).filter fun name => !name.isEmpty

def addDirectory (tree : Tree) (path : Text) : Tree := tree.makeDirectories (tree.names path)

/-- Puts a file below directories that are made for it. -/
def addFile (tree : Tree) (path : Text) (bytes : List UInt8) : Tree :=
  let place := tree.names path
  (tree.makeDirectories place.dropLast).put place (.file bytes)

end Tree

end DataSegment.Files
